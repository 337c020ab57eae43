import DomainStatus.Lib.Text
import Mathlib.Data.List.AList

/-!
# Fingerprint rules

The rules that technology detection works with, after `src/fingerprint/models.rs`, and the parts of
a pattern text, after `parse_pattern` of `src/fingerprint/patterns/mod.rs`.
-/

namespace DomainStatus.Fingerprint

/-- `std::collections::HashMap`. The order of the entries stands for the order of its iterators. -/
abbrev HashMap (κ ν : Type) :=
  AList fun _ : κ => ν

/-- What is found after an insertion was inserted, or was there before under another key. -/
theorem lookup_insert_inv {κ ν : Type} [DecidableEq κ] {map : HashMap κ ν} {key other : κ}
    {value found : ν} (h : (map.insert key value).lookup other = some found) :
    (other = key ∧ found = value) ∨ (other ≠ key ∧ map.lookup other = some found) := by
  by_cases hother : other = key
  · subst hother
    rw [AList.lookup_insert, Option.some.injEq] at h
    exact .inl ⟨rfl, h.symm⟩
  · rw [AList.lookup_insert_ne hother] at h
    exact .inr ⟨hother, h⟩

/-- One technology of a ruleset, with the signals that show it and the rules that connect it to
other technologies. -/
structure Technology where
  cats : List ℕ := []
  website : String := ""
  headers : HashMap String String := ∅
  cookies : HashMap String String := ∅
  metaTags : HashMap String (List String) := ∅
  script : List String := []
  scripts : List String := []
  html : List String := []
  url : List String := []
  dns : HashMap String (List String) := ∅
  certIssuer : List String := []
  js : HashMap String String := ∅
  implies : List String := []
  excludes : List String := []
  requires : List String := []
  requiresCategory : List ℕ := []

/-- Where a ruleset is from. The time is in nanoseconds since the Unix epoch. -/
structure FingerprintMetadata where
  source : String
  version : String
  lastUpdated : ℕ
  deriving DecidableEq

/-- The technologies with the names of their categories. -/
structure FingerprintRuleset where
  technologies : HashMap String Technology
  categories : HashMap ℕ String := ∅
  metadata : FingerprintMetadata := { source := "test", version := "0", lastUpdated := 0 }

/-- How a technology was observed. -/
inductive DetectionSource where
  | header | cookie | html | scriptSrc | scripts | url | js | ns | cname | cert | implied
  deriving DecidableEq, Repr

/-- The name of a source. -/
def DetectionSource.asStr : DetectionSource → String
  | .header => "header"
  | .cookie => "cookie"
  | .html => "html"
  | .scriptSrc => "scriptSrc"
  | .scripts => "scripts"
  | .url => "url"
  | .js => "js"
  | .ns => "ns"
  | .cname => "cname"
  | .cert => "cert"
  | .implied => "implied"

/-- A technology that one of the signals shows. -/
structure MatchResult where
  techName : String
  version : Option String
  source : DetectionSource
  deriving DecidableEq, Repr

/-- A pattern text without its metadata, and the metadata. -/
structure ParsedPattern where
  patternForMatch : String
  versionTemplate : Option String
  confidence : ℕ
  deriving DecidableEq

/-- Reads one metadata part of a pattern. Only the first version counts, and a confidence that is
no number is passed over. -/
def ParsedPattern.readPart (parsed : ParsedPattern) (part : List Char) : ParsedPattern :=
  match part.span (· ≠ ':') with
  | (_, []) => parsed
  | (key, _ :: value) =>
      if key = "version".toList ∧ parsed.versionTemplate = none then
        { parsed with versionTemplate := some (String.ofList value) }
      else if key = "confidence".toList then
        match Text.parseU32 (Text.trimChars value) with
        | some n => { parsed with confidence := n }
        | none => parsed
      else parsed

/-- Splits a pattern at each `\;` into the text to match and its metadata. -/
def parsePattern (pattern : String) : ParsedPattern :=
  match Text.split ['\\', ';'] pattern.toList with
  | [] => { patternForMatch := "", versionTemplate := none, confidence := 100 }
  | first :: parts =>
      parts.foldl ParsedPattern.readPart
        { patternForMatch := String.ofList (Text.trimChars first), versionTemplate := none,
          confidence := 100 }

/-- A reference to a technology in `implies`, `excludes` or `requires`: its name and version. -/
def parseTechnologyReference (raw : String) : String × Option String :=
  ((parsePattern raw).patternForMatch, (parsePattern raw).versionTemplate)

example : parseTechnologyReference "PHP\\;confidence:75" = ("PHP", none) := by decide +kernel

end DomainStatus.Fingerprint
