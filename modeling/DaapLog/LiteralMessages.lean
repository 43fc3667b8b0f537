import DaapLog.MessageText
import DaapLog.PrintfFormats

/-!
Texts that are logged as data: the results of the parser and the texts of Fortran programs.
Both reach `daapLogWrite` as its format.
-/

namespace DaapLog.LiteralMessages

open DaapLog.BuildInflux (daap_init_t DAAP_ERROR DAAP_MAX_MSG_LEN fullMessage)
open DaapLog.CStrings
open DaapLog.LibraryCalls
open DaapLog.MessageText
open DaapLog.PrintfFormats
open DaapLog.TracedCalls

/-- Both passes of `daapLogWrite(message, ...)` print the same text. -/
def daapLogWrite (l : Library) (message : Text) (args : List Arg) (io : LogIo) :
    Traced Library Event Int :=
  if !l.daapInit_called then (l, [], .returns DAAP_ERROR)
  else
    match printf message args with
    | none => (l, [], .undefined)
    | some formatted =>
        l.daapLogWrite .caller formatted { io with msg_len := formatted.length }

/-- `key` and `val` may be null pointers. -/
def sendResult (l : Library) (key val : Option Text) (io : LogIo) : Traced Library Event Int :=
  match key, val with
  | some key, some val =>
      let res_len := key.length + val.length + 2
      match printf "%s=%s" [.str key, .str val] with
      | none => (l, [], .undefined)
      | some text => daapLogWrite l (snprintf res_len [] text) [] io
  | _, _ => (l, [], .returns (-1))

/-- The Fortran entry for a text of `len` characters. It stores a NUL at `message[len]`, a byte
that is expected to be the caller's to write. -/
def daaplogwrite_ (l : Library) (message : Text) (io : LogIo) : Traced Library Event Unit :=
  let r := daapLogWrite l ((message ++ ['\x00']).takeWhile (· ≠ '\x00')) [] io
  (r.1, r.2.1, r.2.2.map fun _ => ())

theorem sendResult_eq (l : Library) (key val : Text) (io : LogIo) :
    sendResult l (some key) (some val) io = daapLogWrite l (key ++ '=' :: val) [] io := by
  have hvalue : printf ['=', '%', 's'] [.str val] = some ('=' :: val) := by
    rw [printf_cons _ _ (by decide), printf_str, printf_nil]
    exact congrArg (fun text => some ('=' :: text)) (List.append_nil val)
  have hformat : ("%s=%s" : Text) = '%' :: 's' :: ['=', '%', 's'] := by decide
  have htext : printf "%s=%s" [.str key, .str val] = some (key ++ '=' :: val) := by
    rw [hformat, printf_str, hvalue]
    rfl
  have hfits : (key ++ '=' :: val).length < key.length + val.length + 2 := by
    rw [List.length_append, List.length_cons]
    omega
  simp only [sendResult, htext, (snprintf_eq_self_iff (by omega) [] _).mpr hfits]

section Initialised

variable {l : Library} {init_data : daap_init_t}

theorem handed_of_initialised (hcalled : l.daapInit_called = true)
    (hdata : l.init_data = some init_data) (formatted : Text) (io : LogIo) :
    handed (l.daapLogWrite .caller formatted io).2.1 =
      [fullMessage io.msg_len io.old formatted] := by
  rw [Library.daapLogWrite, if_neg (by simp [hcalled]), hdata]
  exact congrArg (fullMessage io.msg_len io.old formatted :: ·) (handed_transmit l _ io.write)

theorem handed_daapLogWrite (hcalled : l.daapInit_called = true)
    (hdata : l.init_data = some init_data) (message : Text) (io : LogIo) :
    handed (daapLogWrite l message [] io).2.1 =
      ((printf message []).map (·.take DAAP_MAX_MSG_LEN)).toList := by
  rw [daapLogWrite, if_neg (by simp [hcalled])]
  cases printf message [] with
  | none => rfl
  | some formatted =>
      have hlength : (min (formatted.length : Int) DAAP_MAX_MSG_LEN).toNat =
          min DAAP_MAX_MSG_LEN formatted.length := by
        omega
      refine (handed_of_initialised hcalled hdata formatted _).trans ?_
      rw [fullMessage_of_nonneg (Int.natCast_nonneg _), hlength, ← List.take_eq_take_min]
      rfl

/-- A format is handed on as it is exactly if it has no `%` and is not too long. -/
theorem handed_eq_self_iff (hcalled : l.daapInit_called = true)
    (hdata : l.init_data = some init_data) (message : Text) (io : LogIo) :
    handed (daapLogWrite l message [] io).2.1 = [message] ↔
      '%' ∉ message ∧ message.length ≤ DAAP_MAX_MSG_LEN := by
  rw [handed_daapLogWrite hcalled hdata]
  constructor
  · intro h
    cases hprint : printf message [] with
    | none => exact absurd (hprint ▸ h) nofun
    | some formatted =>
        rw [hprint] at h
        have htake : formatted.take DAAP_MAX_MSG_LEN = message := (List.cons.inj h).1
        have hescaped := printf_noArgs_iff.mp hprint
        have hlength := length_le_escaped formatted
        rw [← hescaped, ← htake, List.length_take] at hlength
        have hshort : formatted.length ≤ DAAP_MAX_MSG_LEN := by omega
        rw [List.take_of_length_le hshort] at htake
        rw [htake] at hescaped hshort
        exact ⟨escaped_eq_self_iff.mp hescaped.symm, hshort⟩
  · rintro ⟨hplain, hshort⟩
    rw [printf_of_not_mem hplain, Option.map_some, List.take_of_length_le hshort]
    rfl

theorem length_le_of_handed (hcalled : l.daapInit_called = true)
    (hdata : l.init_data = some init_data) {format text : Text} {io : LogIo}
    (h : handed (daapLogWrite l format [] io).2.1 = [text]) : text.length ≤ format.length := by
  rw [handed_daapLogWrite hcalled hdata] at h
  cases hprint : printf format [] with
  | none => exact absurd (hprint ▸ h) nofun
  | some formatted =>
      rw [hprint] at h
      rw [← (List.cons.inj h).1, printf_noArgs_iff.mp hprint]
      exact (List.take_prefix _ _).length_le.trans (length_le_escaped formatted)

end Initialised

theorem takeWhile_nul (message : Text) :
    (message ++ ['\x00']).takeWhile (· ≠ '\x00') = message.takeWhile (· ≠ '\x00') := by
  rw [List.takeWhile_append]
  split
  · next hall =>
      rw [List.takeWhile_cons_of_neg (by decide), List.append_nil]
      exact (List.takeWhile_prefix _).eq_of_length hall |>.symm
  · rfl

/-- On an initialised library a result of the parser that is not too long is logged as
it is exactly if it has no `%`, and a Fortran text exactly if it has no `%` and no NUL
and is not too long. -/
theorem messages_literal_iff (l : Library) {init_data : daap_init_t}
    (hcalled : l.daapInit_called = true) (hdata : l.init_data = some init_data) (io : LogIo) :
    (∀ key val : Text, (key ++ '=' :: val).length ≤ DAAP_MAX_MSG_LEN →
      (handed (sendResult l (some key) (some val) io).2.1 = [key ++ '=' :: val] ↔
        '%' ∉ key ++ '=' :: val)) ∧
    ∀ message : Text, handed (daaplogwrite_ l message io).2.1 = [message] ↔
      '%' ∉ message ∧ '\x00' ∉ message ∧ message.length ≤ DAAP_MAX_MSG_LEN := by
  constructor
  · intro key val hlength
    rw [sendResult_eq, handed_eq_self_iff hcalled hdata, and_iff_left hlength]
  · intro message
    have hnul : message.takeWhile (· ≠ '\x00') = message ↔ '\x00' ∉ message := by
      rw [List.takeWhile_eq_self_iff]
      exact ⟨fun h hmem => absurd (h _ hmem) (by decide),
        fun h c hc => decide_eq_true fun heq => h (heq ▸ hc)⟩
    rw [daaplogwrite_, takeWhile_nul]
    constructor
    · intro h
      have hwhole := (List.takeWhile_prefix (· ≠ '\x00')).eq_of_length_le
        (length_le_of_handed hcalled hdata h)
      simp only [hwhole] at h
      obtain ⟨hplain, hshort⟩ := (handed_eq_self_iff hcalled hdata message io).mp h
      exact ⟨hplain, hnul.mp hwhole, hshort⟩
    · rintro ⟨hplain, hterminated, hshort⟩
      simp only [hnul.mpr hterminated]
      exact (handed_eq_self_iff hcalled hdata message io).mpr ⟨hplain, hshort⟩

theorem messages_literal_percentage :
    ∃ init_data, initialised.init_data = some init_data ∧
      (handed (sendResult initialised (some "operation") (some "sort") promptIo).2.1 =
          ["operation=sort".toList] ↔ '%' ∉ "operation=sort".toList) := by
  refine ⟨_, rfl, ?_⟩
  exact (messages_literal_iff initialised rfl rfl promptIo).1 "operation" "sort" (by decide)

/-- A percentage has no defined meaning as a format, and a doubled percent sign loses one. -/
theorem messages_not_literal :
    (sendResult initialised (some "pct") (some "12%") promptIo).2.2 = .undefined ∧
      handed (sendResult initialised (some "pct") (some "12%") promptIo).2.1 ≠
        ["pct=12%".toList] ∧
      handed (sendResult initialised (some "pct") (some "50%%") promptIo).2.1 =
        ["pct=50%".toList] ∧
      handed (daaplogwrite_ initialised "50%%" promptIo).2.1 = ["50%".toList] :=
  ⟨by decide, by decide, by decide, by decide⟩

end DaapLog.LiteralMessages
