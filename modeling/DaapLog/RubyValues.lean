import DaapLog.LinearPatterns
import DaapLog.OrderedHash
import DaapLog.RubyStrings

/-!
The values of a fluentd record and the methods that the output plugin calls on values
it knows nothing about. A result `none` stands for an exception. Floats are finite, so
they are rational numbers.
-/

namespace DaapLog.RubyValues

open DaapLog.CStrings
open DaapLog.OrderedHash

inductive Val
  | nil
  | bool (b : Bool)
  | num (x : ℚ)
  | str (s : Text)
  | arr (items : List Val)
  | hash (entries : List (Text × Val))

abbrev Record := Hash Text Val

/-- What the plugin takes from the Ruby runtime: `JSON.parse`, `to_f` on a string,
`round` of a float and `Time.at(ts).utc.strftime("%Y-%m-%dT%H:%M:%S")`. -/
structure Runtime where
  json_parse : Text → Option Val
  to_f : Text → ℚ
  round : ℚ → Nat → ℚ
  strftime : ℚ → Text

/-- A runtime for examples: integers as floats, one date and no JSON. -/
def integerRuntime : Runtime where
  json_parse _ := none
  to_f text := RubyStrings.to_i text
  round x _ := x
  strftime x := if x = 1644527941 then "2022-02-10T21:19:01".toList else []

/-- `v == "text"`. -/
def Val.isText : Val → Text → Bool
  | .str s, text => s == text
  | _, _ => false

/-- `v.include?("needle")`: part of a string, element of an array, key of a hash. -/
def Val.includes : Val → Text → Option Bool
  | .str s, needle => some (strstr s needle)
  | .arr items, needle => some (items.any fun item => item.isText needle)
  | .hash entries, needle => some (hasKey entries needle)
  | _, _ => none

def Val.asText : Val → Option Text
  | .str s => some s
  | _ => none

def Val.asNum : Val → Option ℚ
  | .num x => some x
  | _ => none

def Val.asHash : Val → Option Record
  | .hash entries => some entries
  | _ => none

/-- `x.to_i` of a float. -/
def truncate (x : ℚ) : Int := x.num.tdiv x.den

def Val.to_f (rb : Runtime) : Val → Option ℚ
  | .nil => some 0
  | .num x => some x
  | .str s => some (rb.to_f s)
  | _ => none

def Val.to_i : Val → Option ℚ
  | .nil => some 0
  | .num x => some (truncate x)
  | .str s => some (RubyStrings.to_i s)
  | _ => none

/-- `record[key]`. -/
def fetch (record : Record) (key : Text) : Val := (get record key).getD .nil

theorem fetch_of_not_hasKey {record : Record} {key : Text} (h : hasKey record key = false) :
    fetch record key = .nil := by
  rw [hasKey, Option.isSome_eq_false_iff, Option.isNone_iff_eq_none] at h
  rw [fetch, h]
  rfl

theorem hasKey_of_fetch_ne {record : Record} {key : Text} (h : fetch record key ≠ .nil) :
    hasKey record key = true := by
  by_contra hkey
  exact h (fetch_of_not_hasKey (Bool.eq_false_of_not_eq_true hkey))

end DaapLog.RubyValues
