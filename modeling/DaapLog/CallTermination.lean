import DaapLog.MutexOrder

/-!
The steps that threads take at most. A call has no loop but that of the writes, so where
those end every call comes back, whatever the scheduler does.
-/

namespace DaapLog.CallTermination

open DaapLog.BuildInflux
open DaapLog.CStrings
open DaapLog.LibraryCalls
open DaapLog.LibraryThreads
open DaapLog.MutexOrder (ordered_code owned_of_run)
open DaapLog.Runs
open DaapLog.TcpLogWrite
open DaapLog.Threads
open DaapLog.TlsTransport

/-- The loop over `SSL_write` ends for every line; none is longer than the buffer. -/
def Ends (io : WriteIo) : Prop :=
  ∀ buf_size : Nat, buf_size < 2048 → ∃ k, (loopAfter io.SSL_write buf_size k).control ≠ .writing

/-- What a call gets from outside for the message that it sends. -/
def messageIo : Call → Option LogIo
  | .daapInit args => some args.io
  | .daapFinalize _ io => some io
  | .daapSetRank _ => none
  | .daapLogWrite _ io => some io
  | .daapLogRawWrite _ io => some io
  | .daapLogHeartbeat io => some io
  | .daapLogJobStart io => some io
  | .daapLogJobDuration _ io => some io
  | .daapLogJobEnd io => some io

section Loops

variable {sslWrite : Nat → Int → Int} {buf_size : Int}

/-- A loop that goes on has made a call in each round. -/
theorem length_calls_loopAfter {k : Nat}
    (h : (loopAfter sslWrite buf_size k).control = .writing) :
    (loopAfter sslWrite buf_size k).calls.length = k := by
  induction k with
  | zero => rfl
  | succ k ih =>
      have hbefore : (loopAfter sslWrite buf_size k).control = .writing := by
        by_contra hnot
        rw [loopAfter_of_not_writing hnot 1] at h
        exact hnot h
      rw [loopAfter_succ] at h ⊢
      have htotal : (loopAfter sslWrite buf_size k).total_count ≠ buf_size := by
        intro htotal
        rw [iteration_stop hbefore htotal] at h
        cases h
      rw [iteration_calls hbefore htotal, List.length_append, ih hbefore, List.length_singleton]

end Loops

/-- The rounds of the loop for a line of this length. -/
noncomputable def rounds (io : WriteIo) (buf_size : Nat) : Nat :=
  sInf {k | (loopAfter io.SSL_write buf_size k).control ≠ .writing}

/-- The rounds for the line that takes the most. -/
noncomputable def maxRounds (io : WriteIo) : Nat := (Finset.range 2048).sup (rounds io)

theorem rounds_le_maxRounds (io : WriteIo) {buf_size : Nat} (h : buf_size < 2048) :
    rounds io buf_size ≤ maxRounds io :=
  Finset.le_sup (Finset.mem_range.mpr h)

theorem lt_rounds {io : WriteIo} (hends : Ends io) {buf_size : Nat} (h : buf_size < 2048) {k : Nat}
    (hwriting : (loopAfter io.SSL_write buf_size k).control = .writing) : k < rounds io buf_size := by
  by_contra hnot
  have hleft : (loopAfter io.SSL_write buf_size (rounds io buf_size)).control ≠ .writing :=
    Nat.sInf_mem (hends buf_size h)
  have hsame := loopAfter_of_not_writing hleft (k - rounds io buf_size)
  rw [Nat.add_sub_cancel' (not_lt.mp hnot)] at hsame
  exact hleft (hsame ▸ hwriting)

/-- The steps behind a log call. -/
def afterSteps : Origin → Nat
  | .jobEnd => 7
  | _ => 0

/-- The steps of a call from a control point on, not counting the last one, up to a write
loop that takes longer. -/
noncomputable def stepsFrom : Point → Nat
  | .call c => 23 + ((messageIo c).map fun io => maxRounds io.write).getD 0
  | .log m => 11 + maxRounds m.io.write + afterSteps m.origin
  | .warn m => 10 + maxRounds m.io.write + afterSteps m.origin
  | .build m => 9 + maxRounds m.io.write + afterSteps m.origin
  | .transmit m _ _ => 8 + maxRounds m.io.write + afterSteps m.origin
  | .socket m _ _ => 7 + maxRounds m.io.write + afterSteps m.origin
  | .connect m _ => 6 + maxRounds m.io.write + afterSteps m.origin
  | .SSL_new m _ => 5 + maxRounds m.io.write + afterSteps m.origin
  | .SSL_connect m _ => 4 + maxRounds m.io.write + afterSteps m.origin
  | .SSL_write m _ loop => 3 + (maxRounds m.io.write - loop.calls.length) + afterSteps m.origin
  | .exit _ => 0
  | .close m => 2 + afterSteps m.origin
  | .unlockWrite m => 1 + afterSteps m.origin
  | .SSL_CTX_free (.connect m) => 3 + afterSteps m.origin
  | .SSL_free (.connect m) => 2 + afterSteps m.origin
  | .SSL_CTX_free (.finalize _) => 7
  | .SSL_free (.finalize _) => 6
  | .testCalled args => 22 + maxRounds args.io.write
  | .nameHost args => 21 + maxRounds args.io.write
  | .nameCluster args => 20 + maxRounds args.io.write
  | .setUp args => 19 + maxRounds args.io.write
  | .reportSetUp args => 18 + maxRounds args.io.write
  | .reported args => 17 + maxRounds args.io.write
  | .setCalled args => 16 + maxRounds args.io.write
  | .unlockInit args => 15 + maxRounds args.io.write
  | .leaveInit _ => 1
  | .rankZero args => 14 + maxRounds args.io.write
  | .mpiRank args => 13 + maxRounds args.io.write
  | .jobStart args => 12 + maxRounds args.io.write
  | .jobEnd _ io => 19 + maxRounds io.write
  | .free fields _ => 2 + fields.length
  | .unlockFinalize _ => 1
  | .done _ => 0

/-- The write loop that a control point is in or may come to ends. -/
def Good : Point → Prop
  | .call c => ∀ io, messageIo c = some io → Ends io.write
  | .log m => Ends m.io.write
  | .warn m => Ends m.io.write
  | .build m => Ends m.io.write
  | .transmit m _ influx_str => Ends m.io.write ∧ influx_str.length < 2048
  | .socket m _ buf_size => Ends m.io.write ∧ buf_size < 2048
  | .connect m buf_size => Ends m.io.write ∧ buf_size < 2048
  | .SSL_new m buf_size => Ends m.io.write ∧ buf_size < 2048
  | .SSL_connect m buf_size => Ends m.io.write ∧ buf_size < 2048
  | .SSL_write m buf_size loop => Ends m.io.write ∧ buf_size < 2048 ∧ loop.control = .writing ∧
      ∃ k, loop = loopAfter m.io.write.SSL_write buf_size k
  | .testCalled args => Ends args.io.write
  | .nameHost args => Ends args.io.write
  | .nameCluster args => Ends args.io.write
  | .setUp args => Ends args.io.write
  | .reportSetUp args => Ends args.io.write
  | .reported args => Ends args.io.write
  | .setCalled args => Ends args.io.write
  | .unlockInit args => Ends args.io.write
  | .rankZero args => Ends args.io.write
  | .mpiRank args => Ends args.io.write
  | .jobStart args => Ends args.io.write
  | .jobEnd _ io => Ends io.write
  | _ => True

section Descending

variable {l : Library}

theorem falls_afterLog (m : Message) (ret_val : Int) :
    Good (afterLog ret_val m.origin) ∧ stepsFrom (afterLog ret_val m.origin) = afterSteps m.origin := by
  cases m.origin with
  | jobStart => exact ⟨trivial, rfl⟩
  | jobEnd => exact ⟨trivial, rfl⟩
  | caller => exact ⟨trivial, rfl⟩

theorem length_buildLine {m : Message} {line : Event} {influx_str : Text}
    (h : buildLine l m = some (line, influx_str)) : influx_str.length < 2048 := by
  rw [buildLine] at h
  split at h
  · obtain ⟨rfl, rfl⟩ := Prod.mk.inj (Option.some.inj h)
    rw [daapBuildRawInflux, snprintf_pos (by norm_num), List.length_take]
    omega
  · obtain ⟨init_data, -, hline⟩ := Option.map_eq_some_iff.mp h
    obtain ⟨rfl, rfl⟩ := Prod.mk.inj hline
    exact length_daapBuildInflux_lt _ _ _

theorem falls_enterCall {c : Call} (hgood : Good (.call c)) :
    Falls Good stepsFrom (stepsFrom (.call c)) (enterCall l c) := by
  have hio {io : LogIo} (h : messageIo c = some io) :
      Ends io.write ∧ stepsFrom (.call c) = 23 + maxRounds io.write := by
    refine ⟨hgood io h, ?_⟩
    rw [stepsFrom, h, Option.map_some, Option.getD_some]
  have hlog {io : LogIo} (h : messageIo c = some io) (raw : Bool) (formatted : Text) :
      Good (.log ⟨.caller, raw, formatted, io⟩) ∧
        stepsFrom (.log ⟨.caller, raw, formatted, io⟩) < stepsFrom (.call c) := by
    obtain ⟨hends, hsteps⟩ := hio h
    refine ⟨hends, ?_⟩
    rw [hsteps]
    simp only [stepsFrom, afterSteps]
    omega
  cases c with
  | daapInit args =>
      obtain ⟨hends, hsteps⟩ := hio rfl
      refine ⟨hends, ?_⟩
      rw [hsteps, stepsFrom]
      omega
  | daapFinalize env io =>
      obtain ⟨hends, hsteps⟩ := hio rfl
      refine ⟨hends, ?_⟩
      rw [hsteps, stepsFrom]
      omega
  | daapSetRank rank => exact ⟨trivial, by simp [stepsFrom]⟩
  | daapLogWrite formatted io => exact hlog rfl _ _
  | daapLogRawWrite formatted io => exact hlog rfl _ _
  | daapLogHeartbeat io => exact hlog rfl _ _
  | daapLogJobStart io => exact hlog rfl _ _
  | daapLogJobDuration cur_time io => exact hlog rfl _ _
  | daapLogJobEnd io => exact hlog rfl _ _

/-- A round of the write loop leads behind it or to a later round. -/
theorem falls_afterWrite {m : Message} {buf_size : Nat} {loop : WriteLoop}
    (hgood : Good (.SSL_write m buf_size loop)) (htotal : loop.total_count ≠ buf_size) :
    Good (.afterWrite m buf_size (iteration m.io.write.SSL_write buf_size loop)) ∧
      stepsFrom (.afterWrite m buf_size (iteration m.io.write.SSL_write buf_size loop)) <
        stepsFrom (.SSL_write m buf_size loop) := by
  obtain ⟨hends, hsize, hwriting, k, rfl⟩ := hgood
  rw [← loopAfter_succ, Point.afterWrite]
  have hlength := length_calls_loopAfter hwriting
  cases hcontrol : (loopAfter m.io.write.SSL_write buf_size (k + 1)).control with
  | writing =>
      have hlater := length_calls_loopAfter hcontrol
      have hless := lt_rounds hends hsize hcontrol
      have hmax := rounds_le_maxRounds m.io.write hsize
      refine ⟨⟨hends, hsize, hcontrol, k + 1, rfl⟩, ?_⟩
      simp only [stepsFrom, hlength, hlater]
      omega
  | left =>
      refine ⟨trivial, ?_⟩
      simp only [stepsFrom]
      omega
  | exited =>
      refine ⟨trivial, ?_⟩
      simp only [stepsFrom]
      omega

theorem descends_code : Descends code Good stepsFrom := by
  intro l control hgood
  cases control with
  | call c => exact falls_enterCall hgood
  | log m =>
      obtain ⟨hnext, hsteps⟩ := falls_afterLog m DAAP_ERROR
      rw [code]
      split
      · refine ⟨hnext, ?_⟩
        rw [hsteps, stepsFrom]
        omega
      · split
        · refine ⟨hgood, ?_⟩
          simp only [stepsFrom]
          omega
        · refine ⟨hgood, ?_⟩
          simp only [stepsFrom]
          omega
  | warn m =>
      refine ⟨hgood, ?_⟩
      simp only [stepsFrom]
      omega
  | build m =>
      rw [code]
      split
      · trivial
      · next line influx_str hline =>
          refine ⟨⟨hgood, length_buildLine hline⟩, ?_⟩
          simp only [stepsFrom]
          omega
  | transmit m line influx_str =>
      obtain ⟨hnext, hsteps⟩ := falls_afterLog m DAAP_SUCCESS
      have hless : stepsFrom (afterLog DAAP_SUCCESS m.origin) <
          stepsFrom (.transmit m line influx_str) := by
        rw [hsteps, stepsFrom]
        omega
      rw [code]
      split
      · exact ⟨hnext, hless⟩
      · exact ⟨hnext, hless⟩
      · refine ⟨hgood, ?_⟩
        simp only [stepsFrom]
        omega
  | socket m line buf_size =>
      rw [code]
      split
      · refine ⟨trivial, ?_⟩
        simp only [stepsFrom]
        omega
      · refine ⟨hgood, ?_⟩
        simp only [stepsFrom]
        omega
  | connect m buf_size =>
      rw [code]
      split
      · refine ⟨trivial, ?_⟩
        simp only [stepsFrom]
        omega
      · refine ⟨hgood, ?_⟩
        simp only [stepsFrom]
        omega
  | SSL_new m buf_size =>
      rw [code]
      split
      · trivial
      · refine ⟨hgood, ?_⟩
        simp only [stepsFrom]
        omega
  | SSL_connect m buf_size =>
      rw [code]
      split
      · refine ⟨trivial, ?_⟩
        simp only [stepsFrom]
        omega
      · refine ⟨⟨hgood.1, hgood.2, rfl, 0, rfl⟩, ?_⟩
        simp only [stepsFrom]
        omega
  | SSL_write m buf_size loop =>
      rw [code]
      split
      · refine ⟨trivial, ?_⟩
        simp only [stepsFrom]
        omega
      · next htotal => exact falls_afterWrite hgood htotal
  | exit m => trivial
  | close m =>
      refine ⟨trivial, ?_⟩
      simp only [stepsFrom]
      omega
  | unlockWrite m =>
      obtain ⟨hnext, hsteps⟩ := falls_afterLog m DAAP_SUCCESS
      refine ⟨hnext, ?_⟩
      rw [hsteps, stepsFrom]
      omega
  | SSL_CTX_free at_ =>
      have hless : stepsFrom (.SSL_free at_) < stepsFrom (.SSL_CTX_free at_) := by
        cases at_ with
        | connect m =>
            simp only [stepsFrom]
            omega
        | finalize ret_val =>
            simp only [stepsFrom]
            omega
      rw [code]
      split
      · trivial
      · exact ⟨trivial, hless⟩
      · exact ⟨trivial, hless⟩
  | SSL_free at_ =>
      have hnext : Good at_.next ∧ stepsFrom at_.next < stepsFrom (.SSL_free at_) := by
        cases at_ with
        | connect m =>
            refine ⟨trivial, ?_⟩
            simp only [Shutdown.next, stepsFrom]
            omega
        | finalize ret_val => exact ⟨trivial, by simp [Shutdown.next, stepsFrom]⟩
      rw [code]
      split
      · trivial
      · exact hnext
      · exact hnext
  | testCalled args =>
      rw [code]
      split
      · refine ⟨trivial, ?_⟩
        simp only [stepsFrom]
        omega
      · refine ⟨hgood, ?_⟩
        simp only [stepsFrom]
        omega
  | nameHost args =>
      rw [code]
      split
      · refine ⟨trivial, ?_⟩
        simp only [stepsFrom]
        omega
      · refine ⟨hgood, ?_⟩
        simp only [stepsFrom]
        omega
  | nameCluster args =>
      refine ⟨hgood, ?_⟩
      simp only [stepsFrom]
      omega
  | setUp args =>
      have hless : stepsFrom (.reportSetUp args) < stepsFrom (.setUp args) ∧
          stepsFrom (.setCalled args) < stepsFrom (.setUp args) := by
        simp only [stepsFrom]
        omega
      rw [code]
      split
      · split
        · change Good (if _ then _ else _) ∧ stepsFrom (if _ then _ else _) < _
          split
          · exact ⟨hgood, hless.1⟩
          · exact ⟨hgood, hless.2⟩
        · trivial
      · exact ⟨hgood, hless.2⟩
  | reportSetUp args =>
      refine ⟨hgood, ?_⟩
      simp only [stepsFrom]
      omega
  | reported args =>
      refine ⟨hgood, ?_⟩
      simp only [stepsFrom]
      omega
  | setCalled args =>
      refine ⟨hgood, ?_⟩
      simp only [stepsFrom]
      omega
  | unlockInit args =>
      refine ⟨hgood, ?_⟩
      simp only [stepsFrom]
      omega
  | leaveInit ret_val => exact ⟨trivial, by simp [stepsFrom]⟩
  | rankZero args =>
      refine ⟨hgood, ?_⟩
      simp only [stepsFrom]
      omega
  | mpiRank args =>
      refine ⟨hgood, ?_⟩
      simp only [stepsFrom]
      omega
  | jobStart args =>
      rw [code]
      split
      · refine ⟨hgood, ?_⟩
        simp only [stepsFrom, afterSteps]
        omega
      · refine ⟨trivial, ?_⟩
        simp only [stepsFrom]
        omega
  | jobEnd env io =>
      rw [code]
      split
      · refine ⟨hgood, ?_⟩
        simp only [stepsFrom, afterSteps]
        omega
      · refine ⟨trivial, ?_⟩
        simp only [stepsFrom]
        omega
  | free fields ret_val =>
      cases fields with
      | nil => exact ⟨trivial, by simp [stepsFrom]⟩
      | cons field fields =>
          rw [code]
          split
          · trivial
          · exact ⟨trivial, by simp [stepsFrom]⟩
  | unlockFinalize ret_val => exact ⟨trivial, by simp [stepsFrom]⟩
  | done ret_val => trivial

end Descending

section Schedules

variable {ι : Type*} [DecidableEq ι] [Fintype ι]

/-- Where the write loops end there are only so many steps for threads with any calls, however
these are mixed, and as long as the process goes on some thread can take one until each call
of each thread has returned. -/
theorem calls_complete {l : Library} {calls : ι → List Call}
    (hends : ∀ i, ∀ c ∈ calls i, ∀ io, messageIo c = some io → Ends io.write) :
    ∃ bound, ∀ (schedule : List ι)
      (r : Process ι Mutex Library Event Point (Option Int) × List (ι × Event)),
      run (step code) (Process.start l fun i => (calls i).map .call) schedule = some r →
        schedule.length ≤ bound ∧
          (r.1.ending = .running → (∀ i, (r.1.results i).length = (calls i).length) ∨
            ∃ i next, step code r.1 i = some next) := by
  have hgood : ∀ i, ∀ point ∈ (calls i).map Point.call, Good point := by
    intro i point hpoint
    obtain ⟨c, hc, rfl⟩ := List.mem_map.mp hpoint
    exact hends i c hc
  refine ⟨_, fun schedule r hrun => ⟨length_schedule_le descends_code hgood hrun,
    fun halive => ?_⟩⟩
  by_cases hdone : ∀ i, r.1.threads i = []
  · refine .inl fun i => ?_
    have hlength := length_results_run hrun i
    rw [hdone i] at hlength
    simpa [Process.start] using hlength
  · rw [not_forall] at hdone
    exact .inr (exists_step ordered_code (owned_of_run hrun) halive hdone)

theorem ends_of_whole {io : WriteIo} (h : ∀ len, io.SSL_write 0 len = len) : Ends io := by
  intro buf_size hsize
  rcases Nat.eq_zero_or_pos buf_size with rfl | hpos
  · have hstop : iteration io.SSL_write (0 : Nat) {} = { ({} : WriteLoop) with control := .left } :=
      iteration_stop rfl rfl
    refine ⟨1, ?_⟩
    rw [loopAfter_succ, loopAfter, Function.iterate_zero, id_eq, hstop]
    decide
  · have hfirst := iteration_progress (s := {}) (c := buf_size) rfl (by simp; omega)
      (h (buf_size - 0)) (by omega)
    refine ⟨2, ?_⟩
    rw [loopAfter_succ, loopAfter_succ, loopAfter, Function.iterate_zero, id_eq, hfirst,
      iteration_stop rfl (by simp)]
    simp

theorem calls_complete_pair :
    ∃ bound, ∀ (schedule : List (Fin 2))
      (r : Process (Fin 2) Mutex Library Event Point (Option Int) × List (Fin 2 × Event)),
      run (step code) (Process.start {} fun i => (MutexOrder.initialising i).map .call) schedule =
        some r → schedule.length ≤ bound ∧
          (r.1.ending = .running →
            (∀ i, (r.1.results i).length = (MutexOrder.initialising i).length) ∨
              ∃ i next, step code r.1 i = some next) := by
  refine calls_complete fun i c hc io hio => ends_of_whole fun len => ?_
  obtain rfl : c = .daapInit syslogInit := List.mem_singleton.mp hc
  obtain rfl : promptIo = io := Option.some.inj hio
  rfl

end Schedules

end DaapLog.CallTermination
