import DomainStatus.Lib.RegexCrate
import DomainStatus.Lib.Text

/-!
# Version templates

The version that a pattern's template makes of the groups of a match, after
`src/fingerprint/patterns/version.rs`.
-/

namespace DomainStatus.Fingerprint

/-- The two ways to write the placeholder of a group, with two backslashes and with one. -/
def placeholderDouble (i : ℕ) : List Char :=
  '\\' :: '\\' :: (Nat.repr i).toList

/-- A placeholder with one backslash. -/
def placeholderSingle (i : ℕ) : List Char :=
  '\\' :: (Nat.repr i).toList

/-- The numbers of the groups, from the last one down to the first. -/
def groupsDescending (captures : Captures) : List ℕ :=
  (List.range' 1 (captures.length - 1)).reverse

/-- Puts the text of a group in the place of its placeholders. A group without text leaves them. -/
def replaceGroup (captures : Captures) (text : List Char) (i : ℕ) : List Char :=
  match captures[i]?.join with
  | some value =>
      Text.replace (Text.replace text (placeholderDouble i) value.toList) (placeholderSingle i)
        value.toList
  | none => text

/-- Puts the texts of the groups in the places of their placeholders. -/
def replacePlaceholders (template : List Char) (captures : Captures) : List Char :=
  (groupsDescending captures).foldl (replaceGroup captures) template

/-- Removes each backslash that digits follow, with the digits. The flag tells that the digits of a
placeholder are being read. -/
def removePlaceholders : Bool → List Char → List Char
  | _, [] => []
  | inPlaceholder, c :: rest =>
      if inPlaceholder && RegexCrate.isDecimalDigit c then removePlaceholders true rest
      else if c = '\\' && rest.head?.any RegexCrate.isDecimalDigit then removePlaceholders true rest
      else c :: removePlaceholders false rest

/-- The two branches of `condition?first:second`. -/
def parseTernaryExpression (expression : List Char) : Option (List Char × List Char) :=
  match expression.span (· ≠ '?') with
  | (_, []) => none
  | (_, _ :: afterQuestion) =>
      match afterQuestion.span (· ≠ ':') with
      | (_, []) => none
      | (truePart, _ :: falsePart) => some (truePart, falsePart)

/-- Evaluates a conditional template. The condition asks only whether the pattern has groups. -/
def evaluateVersionTernary (expression : List Char) (captures : Captures) : List Char :=
  match parseTernaryExpression expression with
  | none => expression
  | some (truePart, falsePart) =>
      let hasCaptureGroups := 1 < captures.length
      if truePart = [] then
        if falsePart = [] then [] else replacePlaceholders falsePart captures
      else if hasCaptureGroups then replacePlaceholders truePart captures
      else replacePlaceholders falsePart captures

/-- The groups from 1 to 99 that the template names. -/
def placeholdersInTemplate (versionExpr : List Char) : List ℕ :=
  (List.range' 1 99).filter fun i =>
    Text.contains versionExpr (placeholderDouble i) ||
      Text.contains versionExpr (placeholderSingle i)

/-- The version before blanks and a second part are cut off. -/
def substituteVersion (versionExpr : List Char) (captures : Captures) : List Char :=
  -- A conditional is evaluated before the groups are filled in, since their texts may hold `?`.
  if versionExpr.contains '?' then evaluateVersionTernary versionExpr captures
  else
    removePlaceholders false
      (((groupsDescending captures).filter fun i =>
          (placeholdersInTemplate versionExpr).contains i).foldl
        (replaceGroup captures) versionExpr)

/-- The version that a template makes of a match. When the template names one group at most, only
the part before a semicolon counts. -/
def extractVersionFromTemplate (template : String) (captures : Captures) : Option String :=
  match Text.stripPrefix template "version:" with
  | none => none
  | some expr =>
      let versionExpr := Text.trimChars expr.toList
      if versionExpr = [] then none
      else
        let result := removePlaceholders false (substituteVersion versionExpr captures)
        if result = [] then none
        else
          let trimmed := Text.trimChars result
          let firstPart := Text.trimChars (trimmed.takeWhile (· ≠ ';'))
          if trimmed.contains ';' ∧ (placeholdersInTemplate versionExpr).length ≤ 1 ∧
              firstPart ≠ [] then
            some (String.ofList firstPart)
          else some (String.ofList trimmed)

example :
    extractVersionFromTemplate "version:\\1" [some "jquery-3.7", some "3.7"] = some "3.7" := by
  decide +kernel

end DomainStatus.Fingerprint
