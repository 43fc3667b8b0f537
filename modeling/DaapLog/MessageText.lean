import DaapLog.LibraryLifeCycle

/-!
The text that the write functions hand to the influx builders. Its length is the result
of a first formatting pass, which may be negative and is not tested.
-/

namespace DaapLog.MessageText

open DaapLog.CStrings
open DaapLog.BuildInflux (daap_init_t DAAP_MAX_MSG_LEN fullMessage)
open DaapLog.LibraryCalls
open DaapLog.LibraryLifeCycle
open DaapLog.TracedCalls

/-- The texts that were given to `daapBuildInflux` and `daapBuildRawInflux`. -/
def handed (events : List Event) : List Text :=
  events.filterMap fun
    | .influx _ _ _ full_message => some full_message
    | .rawInflux full_message => some full_message
    | _ => none

/-- A write function, as a function of the content of its uninitialised buffer: the
result of `vfprintf` and the formatted text determine what is handed on, and a failure
of `vfprintf` is reported. -/
structure Determined (msg_len : Int) (formatted : Text)
    (write : Text → Traced Library Event Int) : Prop where
  text : 0 ≤ msg_len → ∀ old,
    handed (write old).2.1 = [formatted.take (min msg_len DAAP_MAX_MSG_LEN).toNat]
  terminated : 0 ≤ msg_len → ∀ old, ∀ full_message ∈ handed (write old).2.1,
    full_message.length < DAAP_MAX_MSG_LEN + 1
  failure : msg_len < 0 → ∀ old,
    (write old).2.1 = [] ∧ ∃ ret, ret ≠ 0 ∧ (write old).2.2 = .returns ret

theorem fullMessage_of_nonneg {msg_len : Int} (h : 0 ≤ msg_len) (old formatted : Text) :
    fullMessage msg_len old formatted =
      formatted.take (min msg_len DAAP_MAX_MSG_LEN).toNat := by
  have hcut : (if msg_len > DAAP_MAX_MSG_LEN then (DAAP_MAX_MSG_LEN : Int) else msg_len) =
      min msg_len DAAP_MAX_MSG_LEN := by
    split
    · next hlong => rw [min_eq_right (le_of_lt hlong)]
    · next hshort => rw [min_eq_left (not_lt.mp hshort)]
  obtain ⟨n, hn⟩ := Int.eq_ofNat_of_zero_le (le_min h (Int.natCast_nonneg DAAP_MAX_MSG_LEN))
  have hbound : n ≤ DAAP_MAX_MSG_LEN := by
    have := min_le_right msg_len (DAAP_MAX_MSG_LEN : Int)
    omega
  have hsize : toSize ((n : Int) + 1) = n + 1 := by
    rw [DAAP_MAX_MSG_LEN] at hbound
    exact_mod_cast toSize_natCast (by omega : n + 1 < 2 ^ 64)
  rw [fullMessage, hcut, hn, hsize, snprintf_pos (Nat.succ_pos n)]
  rfl

theorem handed_transmit (l : Library) (influx_str : Text) (io : TlsTransport.WriteIo) :
    handed (l.transmit influx_str io).2.1 = [] := by
  refine List.filterMap_eq_nil_iff.mpr fun event hevent => ?_
  rcases transmit_events l hevent with ⟨e, rfl⟩ | rfl
  · rfl
  · rfl

theorem determined_iff {msg_len : Int} {formatted : Text}
    {write : Text → Traced Library Event Int}
    (hwrite : ∀ old, handed (write old).2.1 = [fullMessage msg_len old formatted]) :
    Determined msg_len formatted write ↔ 0 ≤ msg_len := by
  constructor
  · intro h
    by_contra hneg
    have hhanded := hwrite []
    rw [(h.failure (not_le.mp hneg) []).1] at hhanded
    exact absurd hhanded (List.cons_ne_nil _ _).symm
  · intro h
    refine ⟨fun _ old => ?_, fun _ old full_message hmem => ?_, fun hneg => absurd h hneg.not_ge⟩
    · rw [hwrite, fullMessage_of_nonneg h]
    · rw [hwrite, List.mem_singleton] at hmem
      rw [hmem, fullMessage_of_nonneg h, List.length_take]
      have := min_le_right msg_len (DAAP_MAX_MSG_LEN : Int)
      omega

/-- On an initialised library the logged text is determined by the call exactly if
`vfprintf` does not fail. -/
theorem daapLogWrite_determined_iff (l : Library) {init_data : daap_init_t}
    (hcalled : l.daapInit_called = true) (hdata : l.init_data = some init_data)
    (origin : Origin) (formatted : Text) (io : LogIo) :
    (Determined io.msg_len formatted
        (fun old => l.daapLogWrite origin formatted { io with old := old }) ↔ 0 ≤ io.msg_len) ∧
      (Determined io.msg_len formatted
        (fun old => l.daapLogRawWrite formatted { io with old := old }) ↔ 0 ≤ io.msg_len) := by
  have hnot : ¬(!l.daapInit_called) = true := by simp [hcalled]
  constructor
  · refine determined_iff fun old => ?_
    rw [Library.daapLogWrite, if_neg hnot, hdata]
    exact congrArg (fullMessage io.msg_len old formatted :: ·) (handed_transmit l _ io.write)
  · refine determined_iff fun old => ?_
    rw [Library.daapLogRawWrite, if_neg hnot]
    exact congrArg (fullMessage io.msg_len old formatted :: ·) (handed_transmit l _ io.write)

/-- The library behind a `daapInit` for syslog. -/
def initialised : Library := (Library.daapInit {} syslogInit).1

theorem daapLogWrite_determined_heartbeat :
    ∃ init_data, initialised.init_data = some init_data ∧
      (Determined 16 heartbeatText
          (fun old => initialised.daapLogWrite .caller heartbeatText { promptIo with old := old }) ↔
        (0 : Int) ≤ 16) ∧
      (Determined 16 heartbeatText
          (fun old => initialised.daapLogRawWrite heartbeatText { promptIo with old := old }) ↔
        (0 : Int) ≤ 16) :=
  ⟨_, rfl, daapLogWrite_determined_iff initialised rfl rfl .caller heartbeatText promptIo⟩

/-- A failed `vfprintf` makes the old content of the buffer the message. -/
theorem daapLogWrite_not_determined :
    (∀ old, handed (initialised.daapLogWrite .caller heartbeatText
        { promptIo with msg_len := -1, old := old }).2.1 = [old]) ∧
      ¬Determined (-1) heartbeatText (fun old => initialised.daapLogWrite .caller heartbeatText
        { promptIo with msg_len := -1, old := old }) := by
  refine ⟨fun old => rfl, fun h => ?_⟩
  exact absurd (h.failure (by decide) []).1 (List.cons_ne_nil _ _)

end DaapLog.MessageText
