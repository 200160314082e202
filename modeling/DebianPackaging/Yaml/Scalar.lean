import DebianPackaging.Yaml.Number
import DebianPackaging.Yaml.Timestamp
import DebianPackaging.Yaml.Value

namespace DebianPackaging.Yaml

open Text

def casings (word : String) : List Text :=
  [word.toList, word.capitalize.toList, word.toUpper.toList]

def nullWords : List Text :=
  [] :: ['~'] :: casings "null"

def trueWords : List Text :=
  ["true", "yes", "on"].flatMap casings

def falseWords : List Text :=
  ["false", "no", "off"].flatMap casings

/-- Zeros at the end of a fraction do not count, but one digit stays. -/
def trimZeros : Text → Text
  | [] => ['0']
  | c :: rest => c :: (rest.reverse.dropWhile (· = '0')).reverse

def decimal? (t : Text) : Option Scalar :=
  (pointParts? t).map fun (whole, fraction) =>
    let places := trimZeros (fraction.filter Char.isDigit)
    .decimal (signed t (ofDigits 10 (whole ++ places))) places.length

def infinityWords : List Text :=
  [".inf", ".Inf", ".INF"]

def notANumberWords : List Text :=
  [".nan", ".NaN", ".NAN"]

def mergeMark : Text := ['<', '<']

def defaultMark : Text := ['=']

/-- Notations of dates, of fractions other than with a decimal point alone, and the marks of merged and
of default values. Their values are no scalars of this library. -/
def isForeign (t : Text) : Bool :=
  isTimestamp t || isSexagesimal t || isExponential t || infinityWords.contains (unsigned t) ||
    notANumberWords.contains t || t = mergeMark || t = defaultMark

namespace Scalar

def ofPlain (t : Text) : Scalar :=
  if nullWords.contains t then .null
  else if trueWords.contains t then .bool true
  else if falseWords.contains t then .bool false
  else (((int? t).map .int).or (decimal? t)).getD (.text t)

def renderDecimal (digits : Int) (places : Nat) : Text :=
  let shown := ofNat digits.natAbs
  let padded := List.replicate (places + 1 - shown.length) '0' ++ shown
  (if digits < 0 then ['-'] else []) ++ padded.take (padded.length - places) ++
    '.' :: padded.drop (padded.length - places)

def plain : Scalar → Text
  | .null => "null"
  | .bool b => if b then "true" else "false"
  | .int i => ofInt i
  | .decimal digits places => renderDecimal digits places
  | .text t => t

end Scalar

end DebianPackaging.Yaml
