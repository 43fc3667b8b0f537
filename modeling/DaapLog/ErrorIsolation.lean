import DaapLog.ChildRecords

/-!
One event that cannot be parsed makes the call raise, and with it go the records of the
whole stream: when `process` gets through a stream.
-/

namespace DaapLog.ErrorIsolation

open DaapLog.CStrings
open DaapLog.OrderedHash
open DaapLog.RubyValues
open DaapLog.PluginActions
open DaapLog.PluginMessages
open DaapLog.PluginChildren
open DaapLog.TextDispatch
open DaapLog.PluginProcess
open DaapLog.ChildRecords

def Convertible : Val → Prop
  | .nil => True
  | .num _ => True
  | .str _ => True
  | _ => False

/-- The values of a child that has a job are of the types that the plugin expects. -/
structure WellTyped (c : Child) : Prop where
  mem : c.finalName = "mem".toList → (fetch c.fields "used_percent".toList).asNum.isSome
  snap : c.finalName = "snap_pavilion_parser".toList →
    c.isMessage "daap_pavilion_parser".toList →
      ∀ item ∈ Child.snapFloats ++ Child.snapInts, Convertible (fetch c.tags item)
  dated : c.finalName ∉ (["infiniband", "cpu", "mem", "temp", "snap_pavilion_parser"].map
    String.toList) → Dated c → c.timestamp.asNum.isSome

/-- A child that is not one for the plugin or has all its parts. -/
def ChildParses (child : Val) : Prop :=
  ∃ entries, child = .hash entries ∧
    (hasKey entries "fields".toList → hasKey entries "name".toList →
      ∀ name ∈ names, fetch entries "name".toList = .str name →
        ∃ c, readChild entries name = some c ∧ ((jobOf c.jobinfo).isSome → WellTyped c))

def RecordParses (record : Record) : Prop :=
  if !hasKey record "metrics".toList && hasKey record "message".toList then
    MessageParses (fetch record "message".toList)
  else ∃ children, elements (fetch record "metrics".toList) = some children ∧
    ∀ child ∈ children, ChildParses child

def EventParses (rb : Runtime) (record : Record) : Prop :=
  hasKey record "metrics".toList || hasKey record "message".toList →
    ∃ r, parsedRecord rb record = some r ∧ RecordParses r

section Emission

variable (rb : Runtime)

theorem stampRecord_isSome_iff (m : Record) :
    (stampRecord rb m).isSome ↔
      (isTimed m → (fetch m "timestamp".toList).asNum.isSome) := by
  rw [stampRecord]
  by_cases htimed : isTimed m <;> simp [htimed]

def AllEmitted (actions : List Action) : Prop := ∀ action ∈ actions, (emit rb action).isSome

@[simp]
theorem allEmitted_flatMap {α : Type*} (l : List α) (f : α → List Action) :
    AllEmitted rb (l.flatMap f) ↔ ∀ a ∈ l, AllEmitted rb (f a) := by
  constructor
  · intro h a ha action haction
    exact h action (List.mem_flatMap.mpr ⟨a, ha, haction⟩)
  · intro h action haction
    obtain ⟨a, ha, haction⟩ := List.mem_flatMap.mp haction
    exact h a ha action haction

@[simp]
theorem allEmitted_nil : AllEmitted rb [] := nofun

@[simp]
theorem not_allEmitted_raise : ¬AllEmitted rb [.raise] :=
  fun h => absurd (h .raise (by simp)) (by simp [emit])

theorem allEmitted_push_iff (m : Record) :
    AllEmitted rb [.push m] ↔ (isTimed m → (fetch m "timestamp".toList).asNum.isSome) := by
  rw [← stampRecord_isSome_iff rb]
  simp [AllEmitted, emit]

@[simp]
theorem get_toRecord (new_rec : Fields) (key : Text) :
    get new_rec.toRecord key = (get new_rec key).map Scalar.toVal :=
  get_map_values Scalar.toVal new_rec key

theorem messageActions_emitted_iff (message : Val) :
    AllEmitted rb (messageActions rb message) ↔ MessageParses message := by
  rcases messageActions_cases rb message with ⟨hnot, hraise⟩ | ⟨hparses, hnil⟩ |
    ⟨hparses, new_rec, ⟨ts, hts⟩, hpush⟩
  · rw [hraise]
    exact iff_of_false (not_allEmitted_raise rb) hnot
  · rw [hnil]
    exact iff_of_true (allEmitted_nil rb) hparses
  · rw [hpush, allEmitted_push_iff]
    refine iff_of_true (fun _ => ?_) hparses
    rw [fetch, get_toRecord, hts]
    rfl

theorem allEmitted_untimed {actions : List Action}
    (h : ∀ action ∈ actions, ∃ m, action = .push m ∧ isTimed m = false) :
    AllEmitted rb actions := by
  intro action haction
  obtain ⟨m, rfl, htimed⟩ := h action haction
  rw [emit, stampRecord_isSome_iff, htimed]
  intro h
  exact absurd h Bool.false_ne_true

theorem expand_untimed {c : Child} {what : Text} (items : List Text)
    {dup : Text → Record → Record}
    (hdup : ∀ item r, get (dup item r) "metric".toList = get r "metric".toList)
    (hwhat : isTimedText what = false)
    (hflag : isTimedText ("flag_daap_".toList ++ what) = false) :
    ∀ action ∈ c.expand what items dup, ∃ m, action = .push m ∧ isTimed m = false := by
  intro action haction
  obtain ⟨item, -, rfl⟩ := List.mem_map.mp haction
  refine ⟨_, rfl, isTimed_of_metric c what false ?_ hwhat hflag⟩
  rw [hdup, get_setMetric_metric]

theorem infinibandRecord_metric (c : Child) (item : Text) (r : Record) :
    get (c.infinibandRecord item r) "metric".toList = get r "metric".toList := by
  rw [Child.infinibandRecord]
  simp (disch := decide) only [get_set_of_ne]

theorem infiniband_emitted (c : Child) : AllEmitted rb c.infiniband := by
  refine allEmitted_untimed rb fun action haction => ?_
  rcases List.mem_append.mp haction with h | h
  · exact expand_untimed _ (infinibandRecord_metric c) (by decide) (by decide) action h
  · exact expand_untimed _ (infinibandRecord_metric c) (by decide) (by decide) action h

theorem cpu_emitted (c : Child) : AllEmitted rb c.cpu := by
  refine allEmitted_untimed rb (expand_untimed _ (fun item r => ?_) (by decide) (by decide))
  simp (disch := decide) only [get_set_of_ne]

theorem stampRecord_of_untimed {m : Record} (h : isTimed m = false) :
    (stampRecord rb m).isSome := by
  rw [stampRecord_isSome_iff, h]
  exact fun h => absurd h Bool.false_ne_true

theorem allEmitted_sample_iff {m : Record} (h : isTimed m = false) (job_key : Text)
    (time : Int) (new_mem : Val) :
    AllEmitted rb [.sample job_key time new_mem m] ↔ new_mem.asNum.isSome := by
  rw [AllEmitted, List.forall_mem_singleton, emit]
  cases new_mem.asNum with
  | none => exact iff_of_false (by simp) (by simp)
  | some x => exact iff_of_true (stampRecord_of_untimed rb h) rfl

theorem mem_emitted_iff (c : Child) (job_key : Text) (time : Int) :
    AllEmitted rb (c.mem job_key time) ↔
      (fetch c.fields "used_percent".toList).asNum.isSome := by
  refine allEmitted_sample_iff rb
    (isTimed_of_metric c "mem_usage".toList false ?_ (by decide) (by decide)) _ _ _
  simp (disch := decide) only [get_set_of_ne, get_setMetric_metric]

theorem temp_emitted (c : Child) : AllEmitted rb [.push c.temp] := by
  have huntimed : isTimed c.temp = false := by
    refine isTimed_of_metric c "temp".toList false ?_ (by decide) (by decide)
    rw [Child.temp]
    simp (disch := decide) only [get_set_of_ne, get_setMetric_metric]
  rw [allEmitted_push_iff, huntimed]
  exact fun h => absurd h Bool.false_ne_true

theorem convertible_to_f (v : Val) : (v.to_f rb).isSome ↔ Convertible v := by
  cases v <;> simp [Val.to_f, Convertible]

theorem convertible_to_i (v : Val) : v.to_i.isSome ↔ Convertible v := by
  cases v <;> simp [Val.to_i, Convertible]

theorem addNumbers_isSome_iff (c : Child) {convert : Val → Option ℚ}
    (hconvert : ∀ v, (convert v).isSome ↔ Convertible v) (items : List Text) (new_rec : Record) :
    (c.addNumbers convert items new_rec).isSome ↔
      ∀ item ∈ items, Convertible (fetch c.tags item) := by
  induction items generalizing new_rec with
  | nil => simp [Child.addNumbers]
  | cons item items ih =>
      rw [List.forall_mem_cons, ← hconvert, Child.addNumbers, List.foldlM_cons]
      cases convert (fetch c.tags item) with
      | none => simp
      | some x =>
          have := ih (set new_rec item (.num x))
          rw [Child.addNumbers] at this
          simpa using this

theorem get_addNumbers (c : Child) {convert : Val → Option ℚ} {items : List Text} {key : Text}
    (hkey : key ∉ items) {new_rec r : Record} (h : c.addNumbers convert items new_rec = some r) :
    get r key = get new_rec key := by
  induction items generalizing new_rec with
  | nil =>
      obtain rfl : new_rec = r := by simpa [Child.addNumbers] using h
      rfl
  | cons item items ih =>
      rw [List.mem_cons, not_or] at hkey
      rw [Child.addNumbers, List.foldlM_cons] at h
      cases hx : convert (fetch c.tags item) with
      | none => simp [hx] at h
      | some x =>
          rw [hx] at h
          rw [ih hkey.2 h, get_set_of_ne hkey.1]

theorem snap_isSome_iff (c : Child) :
    (c.snap rb).isSome ↔ ∀ item ∈ Child.snapFloats ++ Child.snapInts,
      Convertible (fetch c.tags item) := by
  rw [List.forall_mem_append, Child.snap, Option.isSome_map,
    ← addNumbers_isSome_iff c (convertible_to_f rb) Child.snapFloats c.snapTexts]
  cases hfloats : c.addNumbers (Val.to_f rb) Child.snapFloats c.snapTexts with
  | none => simp
  | some r => simpa using addNumbers_isSome_iff c convertible_to_i Child.snapInts r

theorem snap_metric (c : Child) {r : Record} (h : c.snap rb = some r) :
    get r "metric".toList = some (.str "snap_pavilion_parser".toList) := by
  obtain ⟨ints, hints, rfl⟩ := Option.map_eq_some_iff.mp h
  obtain ⟨floats, hfloats, hints⟩ := Option.bind_eq_some_iff.mp hints
  rw [get_set_of_ne (by decide), get_addNumbers c (by decide) hints,
    get_addNumbers c (by decide) hfloats, Child.snapTexts, get_copyTags c (by decide),
    get_set_self]

theorem snap_untimed (c : Child) {r : Record} (h : c.snap rb = some r) : isTimed r = false :=
  (isTimed_of_text (snap_metric rb c h)).trans (by decide)

theorem snapActions_emitted_iff (c : Child) :
    AllEmitted rb (c.snapActions rb) ↔
      (c.isMessage "daap_pavilion_parser".toList →
        ∀ item ∈ Child.snapFloats ++ Child.snapInts, Convertible (fetch c.tags item)) := by
  rw [Child.snapActions, ← snap_isSome_iff rb]
  split
  · next hmessage =>
      cases hsnap : c.snap rb with
      | none => exact iff_of_false (not_allEmitted_raise rb) fun h => absurd (h hmessage) (by simp)
      | some r =>
          simp only [allEmitted_push_iff, snap_untimed rb c hsnap]
          exact iff_of_true (fun h => absurd h Bool.false_ne_true) fun _ => rfl
  · next hmessage => exact iff_of_true (allEmitted_nil rb) fun h => absurd h hmessage

theorem newRec_emitted_iff (c : Child) :
    AllEmitted rb [.push c.newRec] ↔ (Dated c → c.timestamp.asNum.isSome) := by
  rw [allEmitted_push_iff, isTimed_newRec_iff, fetch, newRec_timestamp, Option.getD_some]

theorem actions_emitted_iff (c : Child) (time : Int) :
    AllEmitted rb (c.actions rb time) ↔ ((jobOf c.jobinfo).isSome → WellTyped c) := by
  rw [Child.actions]
  rcases jobOf c.jobinfo with _ | ⟨jobid, job_name⟩
  · exact iff_of_true (allEmitted_nil rb) nofun
  simp only [Option.isSome_some, true_implies]
  have hother {name : Text} (hname : c.finalName = name)
      (hlisted : name ∈ ["infiniband", "cpu", "mem", "temp", "snap_pavilion_parser"].map
        String.toList) (hmem : name ≠ "mem".toList) (hsnap : name ≠ "snap_pavilion_parser".toList) :
      WellTyped c :=
    ⟨fun h => absurd (hname.symm.trans h) hmem, fun h => absurd (hname.symm.trans h) hsnap,
      fun h => absurd (hname ▸ hlisted) h⟩
  by_cases hinfiniband : c.finalName = "infiniband".toList
  · rw [if_pos hinfiniband]
    exact iff_of_true (infiniband_emitted rb c) (hother hinfiniband (by decide) (by decide) (by decide))
  by_cases hcpu : c.finalName = "cpu".toList
  · rw [if_neg hinfiniband, if_pos hcpu]
    exact iff_of_true (cpu_emitted rb c) (hother hcpu (by decide) (by decide) (by decide))
  by_cases hmem : c.finalName = "mem".toList
  · rw [if_neg hinfiniband, if_neg hcpu, if_pos hmem, mem_emitted_iff]
    constructor
    · intro h
      refine ⟨fun _ => h, fun hsnap => ?_, fun hlist => ?_⟩
      · exact absurd (hmem.symm.trans hsnap) (by decide)
      · exact absurd (hmem ▸ by decide) hlist
    · exact fun h => h.mem hmem
  by_cases htemp : c.finalName = "temp".toList
  · rw [if_neg hinfiniband, if_neg hcpu, if_neg hmem, if_pos htemp]
    exact iff_of_true (temp_emitted rb c) (hother htemp (by decide) (by decide) (by decide))
  rw [if_neg hinfiniband, if_neg hcpu, if_neg hmem, if_neg htemp]
  by_cases hsnap : c.finalName = "snap_pavilion_parser".toList
  · rw [if_pos hsnap, snapActions_emitted_iff]
    have hlisted : c.finalName ∈ ["infiniband", "cpu", "mem", "temp", "snap_pavilion_parser"].map
        String.toList := hsnap ▸ by decide
    exact ⟨fun h => ⟨fun h => absurd h hmem, fun _ => h, fun h => absurd hlisted h⟩,
      fun h => h.snap hsnap⟩
  · rw [if_neg hsnap, newRec_emitted_iff]
    have hunlisted : c.finalName ∉ ["infiniband", "cpu", "mem", "temp", "snap_pavilion_parser"].map
        String.toList := by
      simp only [List.map_cons, List.map_nil, List.mem_cons, List.not_mem_nil, or_false, not_or]
      exact ⟨hinfiniband, hcpu, hmem, htemp, hsnap⟩
    exact ⟨fun h => ⟨fun h => absurd h hmem, fun h => absurd h hsnap, fun _ => h⟩,
      fun h => h.dated hunlisted⟩

theorem namedActions_emitted_iff (time : Int) (entries : Record) (name : Text) :
    AllEmitted rb (namedActions rb time entries name) ↔
      ∃ c, readChild entries name = some c ∧ ((jobOf c.jobinfo).isSome → WellTyped c) := by
  rw [namedActions]
  cases readChild entries name with
  | none => exact iff_of_false (not_allEmitted_raise rb) (by simp)
  | some c => simpa using actions_emitted_iff rb c time

theorem hashActions_emitted_iff (time : Int) (entries : Record) :
    AllEmitted rb (childActions rb time (.hash entries)) ↔
      (hasKey entries "fields".toList → hasKey entries "name".toList →
        ∀ name ∈ names, fetch entries "name".toList = .str name →
          ∃ c, readChild entries name = some c ∧ ((jobOf c.jobinfo).isSome → WellTyped c)) := by
  rw [childActions]
  split
  · next hkeys =>
      obtain ⟨hfields, hname⟩ := (Bool.and_eq_true _ _).mp hkeys
      rw [forall_prop_of_true hfields, forall_prop_of_true hname]
      split
      · next name hfetch =>
          rw [hfetch]
          split
          · next hlisted =>
              rw [namedActions_emitted_iff]
              constructor
              · intro h name' _ heq
                rwa [← Val.str.inj heq]
              · exact fun h => h name hlisted rfl
          · next hunlisted =>
              refine iff_of_true (allEmitted_nil rb) fun name' hlisted heq => ?_
              exact absurd (Val.str.inj heq ▸ hlisted) hunlisted
      · next hother => exact iff_of_true (allEmitted_nil rb) fun name _ h => absurd h (hother name)
  · next hkeys =>
      refine iff_of_true (allEmitted_nil rb) fun hfields hname => ?_
      exact absurd ((Bool.and_eq_true _ _).mpr ⟨hfields, hname⟩) hkeys

theorem childActions_emitted_iff (time : Int) (child : Val) :
    AllEmitted rb (childActions rb time child) ↔ ChildParses child := by
  cases child with
  | hash entries =>
      rw [hashActions_emitted_iff]
      simp only [ChildParses, Val.hash.injEq, exists_eq_left']
  | _ =>
      refine iff_of_false (not_allEmitted_raise rb) ?_
      rintro ⟨entries, h, -⟩
      exact Val.noConfusion h

theorem recordActions_emitted_iff (time : Int) (record : Record) :
    AllEmitted rb (recordActions rb time record) ↔ RecordParses record := by
  rw [recordActions, RecordParses]
  split
  · exact messageActions_emitted_iff rb _
  · cases elements (fetch record "metrics".toList) with
    | none => exact iff_of_false (not_allEmitted_raise rb) (by simp)
    | some children =>
        simp only [Option.some.injEq, exists_eq_left', allEmitted_flatMap, childActions_emitted_iff]

theorem eventActions_emitted_iff (e : Event) :
    AllEmitted rb (eventActions rb e) ↔ EventParses rb e.2 := by
  rw [eventActions, EventParses]
  split
  · next hkeys =>
      rw [forall_prop_of_true hkeys]
      cases parsedRecord rb e.2 with
      | none => exact iff_of_false (not_allEmitted_raise rb) (by simp)
      | some record => simpa using recordActions_emitted_iff rb e.1 record
  · next hkeys => exact iff_of_true (allEmitted_nil rb) fun h => absurd h hkeys

end Emission

theorem process_isSome_iff (rb : Runtime) (cur_ts : Int) (jobs : Hash Text Job)
    (es : List Event) :
    (process rb cur_ts jobs es).2.isSome ↔ ∀ e ∈ es, EventParses rb e.2 := by
  rw [process_emits, mapM_isSome_iff]
  exact (allEmitted_flatMap rb es _).trans
    (forall₂_congr fun e _ => eventActions_emitted_iff rb e)

/-- A call returns, and the records that an event yields alone are emitted with it. -/
def Isolated (rb : Runtime) (cur_ts : Int) (jobs : Hash Text Job) (es : List Event) : Prop :=
  ∃ out, (process rb cur_ts jobs es).2 = some out ∧
    ∀ e ∈ es, ∀ yielded, (process rb cur_ts jobs [e]).2 = some yielded → yielded <:+: out

theorem isolated_iff_forall_eventParses (rb : Runtime) (cur_ts : Int) (jobs : Hash Text Job)
    (es : List Event) : Isolated rb cur_ts jobs es ↔ ∀ e ∈ es, EventParses rb e.2 := by
  rw [← process_isSome_iff rb cur_ts jobs es]
  constructor
  · rintro ⟨out, hout, -⟩
    rw [hout]
    rfl
  · intro hsome
    obtain ⟨out, hout⟩ := Option.isSome_iff_exists.mp hsome
    refine ⟨out, hout, fun e he yielded hyielded => ?_⟩
    obtain ⟨front, back, rfl⟩ := List.append_of_mem he
    rw [process_append, Option.bind_eq_some_iff] at hout
    obtain ⟨out₁, -, hout⟩ := hout
    obtain ⟨out₂, hback, rfl⟩ := Option.map_eq_some_iff.mp hout
    rw [← List.singleton_append, process_append, hyielded, Option.bind_some] at hback
    obtain ⟨out₃, -, rfl⟩ := Option.map_eq_some_iff.mp hback
    exact ⟨out₁, out₃, by rw [List.append_assoc]⟩

/-- The item `desc` has no value. -/
def missingValue : Event :=
  (0, [("message".toList, .str "sap,desc npes=4 1644527941000000000".toList)])

def spiderPlot : Event :=
  (1, [("message".toList, .str "sap,desc=spider_plot npes=4 1644527941000000000".toList)])

theorem isolated_fails_on_missing_value :
    (process integerRuntime 0 [] [spiderPlot]).2.map List.length = some 1 ∧
      ¬Isolated integerRuntime 0 [] [missingValue, spiderPlot] := by
  refine ⟨by decide +kernel, ?_⟩
  rintro ⟨out, hout, -⟩
  have hraises : (process integerRuntime 0 [] [missingValue, spiderPlot]).2.isSome = false := by
    decide +kernel
  rw [hout] at hraises
  exact Bool.noConfusion hraises

end DaapLog.ErrorIsolation
