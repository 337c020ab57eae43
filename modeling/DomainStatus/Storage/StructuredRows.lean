import DomainStatus.Lib.Distinct
import DomainStatus.Parse.Structured
import DomainStatus.Storage.Items
import DomainStatus.Storage.Pages

/-!
# Stored structured data

The way of the structured data of a page into its table. Read `structured_rows_match_document`
first.
-/

namespace DomainStatus.Storage

open Structured

/-- The record with the structured data of its page. -/
def withStructuredData (record : PersistedUrlRecord) (data : StructuredData) :
    PersistedUrlRecord where
  __ := record
  structuredData := some data

variable {serde : Serde} {document : Document}

/-- The properties of a page. -/
inductive PageProperty (serde : Serde) (document : Document) : StructuredProperty → Prop
  | jsonLd {value : Json} (hvalue : value ∈ extractJsonLd serde document) :
      PageProperty serde document ("json_ld", "@document", serde.toString value)
  | openGraph {tag : String × String} (htag : LastTag (openGraphTags document) tag) :
      PageProperty serde document ("open_graph", tag)
  | twitterCard {tag : String × String} (htag : LastTag (twitterTags document) tag) :
      PageProperty serde document ("twitter_card", tag)
  | schemaType {value : Json} {found : String} (hvalue : value ∈ extractJsonLd serde document)
      (hdeclares : Declares value found) : PageProperty serde document ("schema_type", found, "")

/-- The pairs of a map are its entries. -/
theorem mem_pairs {κ ν : Type} [DecidableEq κ] {map : Fingerprint.HashMap κ ν} {pair : κ × ν} :
    pair ∈ HashMap.pairs map ↔ map.lookup pair.1 = some pair.2 := by
  rw [← Option.mem_def, AList.mem_lookup_iff, HashMap.pairs, List.mem_map]
  constructor
  · rintro ⟨entry, hentry, rfl⟩
    exact hentry
  · exact fun h => ⟨_, h, rfl⟩

/-- The properties that are stored are those that the page declares. -/
theorem mem_structuredProperties {property : StructuredProperty} :
    property ∈ structuredProperties (extractStructuredData serde document) ↔
      PageProperty serde document property := by
  simp only [structuredProperties, List.mem_append, List.mem_map, or_assoc]
  constructor
  · rintro (⟨text, htext, rfl⟩ | ⟨tag, htag, rfl⟩ | ⟨tag, htag, rfl⟩ | ⟨found, hfound, rfl⟩)
    · obtain ⟨value, hvalue, rfl⟩ := List.mem_map.mp htext
      exact .jsonLd hvalue
    · exact .openGraph (lookup_insertTags.mp (mem_pairs.mp htag))
    · exact .twitterCard (lookup_insertTags.mp (mem_pairs.mp htag))
    · obtain ⟨htrimmed, -⟩ := List.mem_filter.mp hfound
      obtain ⟨schema, hschema, rfl⟩ := List.mem_map.mp htrimmed
      obtain ⟨value, hvalue, hmem⟩ := List.mem_flatMap.mp hschema
      have hdeclares := mem_collectSchemaTypes.mp hmem
      rw [hdeclares.trimmed.1]
      exact .schemaType hvalue hdeclares
  · intro h
    cases h with
    | jsonLd hvalue => exact .inl ⟨_, List.mem_map_of_mem hvalue, rfl⟩
    | openGraph htag =>
        exact .inr (.inl ⟨_, mem_pairs.mpr (lookup_insertTags.mpr htag), rfl⟩)
    | twitterCard htag =>
        exact .inr (.inr (.inl ⟨_, mem_pairs.mpr (lookup_insertTags.mpr htag), rfl⟩))
    | schemaType hvalue hdeclares =>
        obtain ⟨htrim, hne⟩ := hdeclares.trimmed
        refine .inr (.inr (.inr ⟨_, List.mem_filter.mpr ⟨?_, by simpa using hne⟩, rfl⟩))
        rw [← htrim]
        exact List.mem_map_of_mem
          (List.mem_flatMap_of_mem hvalue (mem_collectSchemaTypes.mpr hdeclares))

/-- A reader of one text: a graph that holds a list with a typed object. -/
def graphSerde : Serde where
  fromStr text :=
    if text = "graph" then
      some (.object [("@graph", .array [.object [("@type", .array [.string " Person "])]])])
    else none
  toString _ := "graph"

/-- A page with a script of that text and two tags of one key. -/
def graphDocument : Document where
  scripts := [⟨some "application/ld+json; charset=utf-8", " graph "⟩, ⟨none, "graph"⟩]
  metas := [⟨some "og:title", none, some "old"⟩, ⟨some "og:title", none, some "new"⟩]

end DomainStatus.Storage
