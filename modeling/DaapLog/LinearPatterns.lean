import DaapLog.CStrings

/-!
Regular expressions without alternatives and without repeated groups: a sequence of
character classes, greedy repetitions of a class and line anchors. They are matched
with backtracking, at the leftmost place first.
-/

namespace DaapLog.LinearPatterns

open DaapLog.CStrings

/-- One part of a pattern: a character of a class, any number of them (as many as
possible), and the anchors `^` and `$` for the start and the end of a line. -/
inductive Atom
  | one (p : Char → Bool)
  | many (p : Char → Bool)
  | bol
  | eol

/-- A pattern; each atom has the number of its capture group, 0 for none. -/
abbrev Pattern := List (Atom × Nat)

def lit (word : Text) (g : Nat) : Pattern := word.map fun c => (.one (· == c), g)

/-- What a dot stands for. -/
def inLine (c : Char) : Bool := c != '\n'

/-- Equal letters when case is ignored; `ſ` folds to `s` and the Kelvin sign to `k`. -/
def sameLetter (c x : Char) : Bool :=
  x.toLower == c.toLower || (c.toLower == 's' && x == 'ſ') || (c.toLower == 'k' && x == '\u212a')

/-- A word of a pattern with the flag `i`. -/
def litFold (word : Text) (g : Nat) : Pattern := word.map fun c => (.one (sameLetter c), g)

def cls (p : Char → Bool) (g : Nat) : Pattern := [(.one p, g)]

def star (p : Char → Bool) (g : Nat) : Pattern := [(.many p, g)]

def plus (p : Char → Bool) (g : Nat) : Pattern := cls p g ++ star p g

def bol : Pattern := [(.bol, 0)]

def eol : Pattern := [(.eol, 0)]

/-- `^` matches at the start and behind a newline that does not end the text. -/
def atBol (prev : Option Char) (text : Text) : Bool :=
  prev.isNone || (prev == some '\n' && !text.isEmpty)

def atEol (text : Text) : Bool := text.isEmpty || text.head? == some '\n'

/-- A greedy repetition in front of `k`, which matches what is behind it. The result
is what was repeated together with the result of `k`. -/
def matchMany (p : Char → Bool) (k : Option Char → Text → Option (List Text × Text)) :
    Option Char → Text → Option (Text × List Text × Text)
  | prev, [] => (k prev []).map ([], ·)
  | prev, c :: rest =>
      if p c then
        match matchMany p k (some c) rest with
        | some r => some (c :: r.1, r.2)
        | none => (k prev (c :: rest)).map ([], ·)
      else (k prev (c :: rest)).map ([], ·)

/-- A match at the start of a text, behind the character `prev`: what each atom has
matched, and the rest of the text. -/
def matchHere : Pattern → Option Char → Text → Option (List Text × Text)
  | [], _, text => some ([], text)
  | (.one _, _) :: _, _, [] => none
  | (.one p, _) :: k, _, c :: rest =>
      if p c then (matchHere k (some c) rest).map fun r => ([c] :: r.1, r.2) else none
  | (.many p, _) :: k, prev, text =>
      (matchMany p (matchHere k) prev text).map fun r => (r.1 :: r.2.1, r.2.2)
  | (.bol, _) :: k, prev, text =>
      if atBol prev text then (matchHere k prev text).map fun r => ([] :: r.1, r.2) else none
  | (.eol, _) :: k, prev, text =>
      if atEol text then (matchHere k prev text).map fun r => ([] :: r.1, r.2) else none

/-- The leftmost match: the text in front of it, its parts and the rest. -/
def search (pattern : Pattern) : Option Char → Text → Option (Text × List Text × Text)
  | prev, [] => (matchHere pattern prev []).map ([], ·)
  | prev, c :: rest =>
      match matchHere pattern prev (c :: rest) with
      | some r => some ([], r)
      | none => (search pattern (some c) rest).map fun r => (c :: r.1, r.2)

/-- The parts of `text.match(pattern)`. -/
def firstMatch (pattern : Pattern) (text : Text) : Option (List Text) :=
  (search pattern none text).map fun r => r.2.1

def capture (pattern : Pattern) (parts : List Text) (g : Nat) : Text :=
  ((pattern.zip parts).filter fun r => r.1.2 = g).flatMap Prod.snd

/-- Replacing match after match; behind an empty match one character is copied. The
number bounds the matches that are left. -/
def gsubFrom (pattern : Pattern) (replace : List Text → Text) :
    Nat → Option Char → Text → Text
  | 0, _, text => text
  | fuel + 1, prev, text =>
      match search pattern prev text with
      | none => text
      | some (before, parts, rest) =>
          match parts.flatten.getLast?, rest with
          | some c, _ => before ++ replace parts ++ gsubFrom pattern replace fuel (some c) rest
          | none, [] => before ++ replace parts
          | none, c :: rest =>
              before ++ replace parts ++ c :: gsubFrom pattern replace fuel (some c) rest

/-- `text.gsub(pattern)` for a replacement that is built from the parts of a match. -/
def gsub (pattern : Pattern) (replace : List Text → Text) (text : Text) : Text :=
  gsubFrom pattern replace (text.length + 1) none text

def remove (pattern : Pattern) (text : Text) : Text := gsub pattern (fun _ => []) text

end DaapLog.LinearPatterns
