import DomainStatus.Lib.Json
import DomainStatus.Lib.Text
import DomainStatus.Storage.Models

/-!
# Structured data of a page

`extract_structured_data` of `src/parse/structured.rs`: the scripts with JSON-LD, the tags of Open
Graph and of Twitter cards, and the types that the JSON-LD declares at any depth of its lists and
graphs. The selectors run on a parsed page, which is given by its scripts and its `meta` elements.
Read `mem_collectSchemaTypes` first.
-/

namespace DomainStatus.Structured

open Storage

open Fingerprint (HashMap)

/-! ## The page -/

/-- A `script` element with its type. -/
structure ScriptElement where
  scriptType : Option String
  text : String

/-- The attributes of a `meta` element that are read. -/
structure MetaElement where
  property : Option String
  name : Option String
  content : Option String

/-- The elements of a page that structured data is read from. -/
structure Document where
  scripts : List ScriptElement
  metas : List MetaElement

/-- The crate `serde_json`: how a text is read as one value, and how a value is written. -/
structure Serde where
  fromStr : String → Option Json
  toString : Json → String

/-! ## Types -/

/-- A type that is not blank, without the blanks around it. -/
def pushSchemaType (typeStr : String) : List String :=
  if Text.trim typeStr = "" then [] else [Text.trim typeStr]

/-- A type, or a list of types. What is no text is passed over. -/
def pushTypeValue : Json → List String
  | .string typeStr => pushSchemaType typeStr
  | .array types => (types.filterMap Json.asStr).flatMap pushSchemaType
  | _ => []

mutual

/-- The types of a value, and of the values in its lists and graphs. -/
def collectSchemaTypes : Json → List String
  | .array items => collectItems items
  | .object fields =>
      (((Json.object fields).get "@type").map pushTypeValue).getD [] ++ collectGraph fields
  | _ => []

/-- The types that the items of a list declare. -/
def collectItems : List Json → List String
  | [] => []
  | item :: rest => collectSchemaTypes item ++ collectItems rest

/-- The types in the field `@graph` of an object. -/
def collectGraph : List (String × Json) → List String
  | [] => []
  | (key, value) :: rest => if key = "@graph" then collectSchemaTypes value else collectGraph rest

end

/-! ## Extraction -/

section Extraction

variable (serde : Serde) (document : Document)

/-- The type of a JSON-LD script, with parameters or without. -/
def isJsonLdScriptType (scriptType : String) : Bool :=
  (scriptType.toList.splitOn ';').head?.any fun mime =>
    Text.eqIgnoreAsciiCase (Text.trim (String.ofList mime)) "application/ld+json"

/-- The values of one script. The values of a list count one by one. -/
def parseJsonLdBlock (jsonStr : String) : List Json :=
  let jsonStr := Text.trim jsonStr
  if jsonStr = "" then []
  else
    match serde.fromStr jsonStr with
    | some (.array items) => items
    | some value => [value]
    | none => []

/-- The JSON-LD values of a page. A block that does not parse gives none. -/
def extractJsonLd : List Json :=
  document.scripts.flatMap fun script =>
    if script.scriptType.any isJsonLdScriptType then parseJsonLdBlock serde script.text else []

/-- Inserts the contents of tags under their keys. A later tag replaces an earlier one. -/
def insertTags (tags : List (String × String)) : HashMap String String :=
  tags.foldl (fun map tag => map.insert tag.1 tag.2) ∅

/-- The key and the content of an element, if the key starts with a prefix. -/
def tagWith (lead : String) (key content : Option String) : Option (String × String) :=
  match key, content with
  | some key, some content => if Text.startsWith key lead then some (key, content) else none
  | _, _ => none

/-- The elements `meta[property^="og:"]`. -/
def openGraphTags : List (String × String) :=
  document.metas.filterMap fun element => tagWith "og:" element.property element.content

/-- The elements `meta[name^="twitter:"]`. -/
def twitterTags : List (String × String) :=
  document.metas.filterMap fun element => tagWith "twitter:" element.name element.content

/-- The JSON-LD is given as the texts that are stored. -/
def extractStructuredData : StructuredData where
  jsonLd := (extractJsonLd serde document).map serde.toString
  openGraph := insertTags (openGraphTags document)
  twitterCards := insertTags (twitterTags document)
  schemaTypes := (extractJsonLd serde document).flatMap collectSchemaTypes

end Extraction

/-! ## Declared types -/

/-- The value names a type. -/
def NamesType (value : Json) (found : String) : Prop :=
  ∃ typeStr, Text.trim typeStr = found ∧ found ≠ "" ∧
    (value = .string typeStr ∨ ∃ types, value = .array types ∧ .string typeStr ∈ types)

/-- Somewhere in the lists and graphs of a value an object declares a type. -/
inductive Declares : Json → String → Prop
  | item {items : List Json} {value : Json} {found : String} (hvalue : value ∈ items)
      (hdeclares : Declares value found) : Declares (.array items) found
  | object {fields : List (String × Json)} {value : Json} {found : String}
      (hvalue : (Json.object fields).get "@type" = some value) (hnames : NamesType value found) :
      Declares (.object fields) found
  | graph {fields : List (String × Json)} {value : Json} {found : String}
      (hvalue : (Json.object fields).get "@graph" = some value)
      (hdeclares : Declares value found) : Declares (.object fields) found

variable {value : Json} {found : String}

/-- A type is taken without blanks around it, unless nothing is left. -/
theorem mem_pushSchemaType {typeStr : String} :
    found ∈ pushSchemaType typeStr ↔ Text.trim typeStr = found ∧ found ≠ "" := by
  unfold pushSchemaType
  split
  case isTrue hempty =>
    constructor
    · exact nofun
    · rintro ⟨rfl, hne⟩
      exact absurd hempty hne
  case isFalse hne =>
    rw [List.mem_singleton]
    constructor
    · rintro rfl
      exact ⟨rfl, hne⟩
    · exact fun h => h.1.symm

/-- Only a string is read as one. -/
theorem asStr_eq_some {text : String} : value.asStr = some text ↔ value = .string text := by
  cases value <;> simp [Json.asStr]

/-- A type is a string or an item of an array. -/
theorem mem_pushTypeValue : found ∈ pushTypeValue value ↔ NamesType value found := by
  unfold NamesType
  cases value with
  | string typeStr => simp [pushTypeValue, mem_pushSchemaType]
  | array types =>
      simp only [pushTypeValue, List.mem_flatMap, List.mem_filterMap, mem_pushSchemaType,
        asStr_eq_some]
      constructor
      · rintro ⟨typeStr, ⟨element, helement, rfl⟩, htrim, hne⟩
        exact ⟨typeStr, htrim, hne, .inr ⟨types, rfl, helement⟩⟩
      · rintro ⟨typeStr, htrim, hne, hstring | ⟨types, harray, hmem⟩⟩
        · cases hstring
        · cases harray
          exact ⟨typeStr, ⟨_, hmem, rfl⟩, htrim, hne⟩
  | _ => simp [pushTypeValue]

/-- The types of an array are those of its items. -/
theorem collectItems_eq (items : List Json) :
    collectItems items = items.flatMap collectSchemaTypes := by
  induction items with
  | nil => rfl
  | cons item rest ih => rw [collectItems, ih, List.flatMap_cons]

/-- The types of a graph are those of its value. -/
theorem collectGraph_eq (fields : List (String × Json)) :
    collectGraph fields = (((Json.object fields).get "@graph").map collectSchemaTypes).getD [] := by
  induction fields with
  | nil => rfl
  | cons field rest ih =>
      obtain ⟨key, value⟩ := field
      rw [collectGraph, ih]
      by_cases hkey : key = "@graph" <;> simp [Json.get, hkey]

/-- What is declared is collected. -/
theorem Declares.mem (h : Declares value found) : found ∈ collectSchemaTypes value := by
  induction h with
  | item hvalue hdeclares ih =>
      rw [collectSchemaTypes, collectItems_eq]
      exact List.mem_flatMap_of_mem hvalue ih
  | object hvalue hnames =>
      rw [collectSchemaTypes, hvalue]
      exact List.mem_append_left _ (mem_pushTypeValue.mpr hnames)
  | graph hvalue hdeclares ih =>
      rw [collectSchemaTypes, collectGraph_eq, hvalue]
      exact List.mem_append_right _ ih

/-- What a list that may be missing has. -/
theorem mem_getD_map {α β : Type} {value : Option α} {f : α → List β} {x : β} :
    x ∈ (value.map f).getD [] ↔ ∃ y, value = some y ∧ x ∈ f y := by
  cases value <;> simp

mutual

/-- What is collected is declared. -/
theorem declares_of_mem : ∀ (value : Json) {found : String}, found ∈ collectSchemaTypes value →
    Declares value found
  | .array items, found, h => by
      obtain ⟨value, hvalue, hdeclares⟩ := declares_of_mem_items items h
      exact .item hvalue hdeclares
  | .object fields, found, h => by
      rw [collectSchemaTypes, List.mem_append, mem_getD_map] at h
      rcases h with ⟨value, hvalue, htype⟩ | h
      · exact .object hvalue (mem_pushTypeValue.mp htype)
      · obtain ⟨value, hvalue, hdeclares⟩ := declares_of_mem_graph fields h
        exact .graph hvalue hdeclares
  | .null, _, h | .bool _, _, h | .posInt _, _, h | .negInt _, _, h | .float _, _, h
  | .string _, _, h => by cases h

/-- A type of an array is declared by an item. -/
theorem declares_of_mem_items : ∀ (items : List Json) {found : String},
    found ∈ collectItems items → ∃ value ∈ items, Declares value found
  | [], _, h => by cases h
  | item :: rest, found, h => by
      rw [collectItems, List.mem_append] at h
      rcases h with h | h
      · exact ⟨item, List.mem_cons_self, declares_of_mem item h⟩
      · obtain ⟨value, hvalue, hdeclares⟩ := declares_of_mem_items rest h
        exact ⟨value, List.mem_cons_of_mem _ hvalue, hdeclares⟩

/-- A type of a graph is declared by its value. -/
theorem declares_of_mem_graph : ∀ (fields : List (String × Json)) {found : String},
    found ∈ collectGraph fields →
      ∃ value, (Json.object fields).get "@graph" = some value ∧ Declares value found
  | [], _, h => by cases h
  | (key, value) :: rest, found, h => by
      rw [collectGraph] at h
      split at h
      case isTrue hkey => exact ⟨value, by simp [Json.get, hkey], declares_of_mem value h⟩
      case isFalse hkey =>
        obtain ⟨value, hvalue, hdeclares⟩ := declares_of_mem_graph rest h
        exact ⟨value, by simpa [Json.get, hkey] using hvalue, hdeclares⟩

end

/-- The types of a value are those that it declares, at whatever depth. -/
theorem mem_collectSchemaTypes : found ∈ collectSchemaTypes value ↔ Declares value found :=
  ⟨declares_of_mem value, Declares.mem⟩

/-- A type has no whitespace around it. -/
theorem Declares.trimmed (h : Declares value found) : Text.trim found = found ∧ found ≠ "" := by
  induction h with
  | item _ _ ih | graph _ _ ih => exact ih
  | object _ hnames =>
      obtain ⟨typeStr, rfl, hne, -⟩ := hnames
      exact ⟨Text.trim_trim typeStr, hne⟩

/-! ## Tags -/

/-- The last tag with its key. -/
def LastTag (tags : List (String × String)) (tag : String × String) : Prop :=
  ∃ before behind, tags = before ++ tag :: behind ∧ ∀ other ∈ behind, other.1 ≠ tag.1

/-- The last tag of a name, with one tag more. -/
theorem lastTag_concat {tags : List (String × String)} {last tag : String × String} :
    LastTag (tags ++ [last]) tag ↔ tag = last ∨ (last.1 ≠ tag.1 ∧ LastTag tags tag) := by
  constructor
  · rintro ⟨before, behind, heq, hlast⟩
    cases behind using List.reverseRecOn with
    | nil =>
        obtain ⟨-, hsame⟩ := List.append_inj' heq rfl
        exact .inl (List.cons.inj hsame).1.symm
    | append_singleton behind other =>
        have hsplit : tags ++ [last] = (before ++ tag :: behind) ++ [other] := by simpa using heq
        obtain ⟨htags, hother⟩ := List.append_inj' hsplit rfl
        rw [(List.cons.inj hother).1]
        exact .inr ⟨hlast other (by simp), before, behind, htags,
          fun other hmem => hlast other (List.mem_append_left _ hmem)⟩
  · rintro (rfl | ⟨hne, before, behind, rfl, hlast⟩)
    · exact ⟨tags, [], rfl, List.forall_mem_nil _⟩
    · refine ⟨before, behind ++ [last], by simp, fun other hother => ?_⟩
      rcases List.mem_append.mp hother with hold | hnew
      · exact hlast other hold
      · rwa [List.mem_singleton.mp hnew]

/-- A map of tags has the last content of each key. -/
theorem lookup_insertTags {tags : List (String × String)} {key content : String} :
    (insertTags tags).lookup key = some content ↔ LastTag tags (key, content) := by
  induction tags using List.reverseRecOn with
  | nil => simp [insertTags, LastTag]
  | append_singleton tags tag ih =>
      have hinsert : insertTags (tags ++ [tag]) = (insertTags tags).insert tag.1 tag.2 :=
        List.foldl_concat ..
      rw [hinsert, lastTag_concat]
      by_cases hkey : key = tag.1
      · rw [hkey, AList.lookup_insert, Option.some.injEq, Prod.ext_iff]
        simp [eq_comm]
      · rw [AList.lookup_insert_ne hkey, ih, Prod.ext_iff]
        simp [hkey, Ne.symm hkey]

end DomainStatus.Structured
