import DomainStatus.Lib.JsonText
import DomainStatus.Lib.Serde
import DomainStatus.Whois.Types

/-!
# The text of a WHOIS cache entry

An entry as the derived `Serialize` of `src/whois/types.rs` writes it. By
`toStringPretty_injective` the text tells which entry it was written for, so that there is a format
that reads back what is written so.
-/

namespace DomainStatus.Whois

open JsonText Text

/-- An `Option` is `null` or its value. -/
def optionDoc {α : Type} (doc : α → Doc) : Option α → Doc
  | none => .null
  | some value => doc value

/-- A list of texts. -/
def listDoc (values : List String) : Doc :=
  .array (values.map .string)

/-- The derived `Serialize` of a result. -/
def WhoisCacheResult.toDoc (result : WhoisCacheResult) : Doc :=
  .object
    [("creation_date", optionDoc .integer result.creationDate),
      ("expiration_date", optionDoc .integer result.expirationDate),
      ("updated_date", optionDoc .integer result.updatedDate),
      ("registrar", optionDoc .string result.registrar),
      ("registrant_country", optionDoc .string result.registrantCountry),
      ("registrant_org", optionDoc .string result.registrantOrg),
      ("status", optionDoc listDoc result.status),
      ("nameservers", optionDoc listDoc result.nameservers),
      ("raw_text", optionDoc .string result.rawText)]

/-- A `SystemTime`, given in nanoseconds since the Unix epoch. -/
def systemTimeDoc (time : ℕ) : Doc :=
  .object
    [("secs_since_epoch", .integer (time / 10 ^ 9 : ℕ)),
      ("nanos_since_epoch", .integer (time % 10 ^ 9 : ℕ))]

/-- The derived `Serialize` of an entry. -/
def WhoisCacheEntry.toDoc (entry : WhoisCacheEntry) : Doc :=
  .object
    [("result", entry.result.toDoc), ("cached_at", systemTimeDoc entry.cachedAt),
      ("domain", .string entry.domain)]

/-- `serde_json::to_string_pretty` of an entry. -/
def toStringPretty (entry : WhoisCacheEntry) : String :=
  String.ofList (pretty 0 entry.toDoc)

/-- A value that may be missing is told apart. -/
theorem optionDoc_injective {α : Type} {doc : α → Doc} (h : Function.Injective doc)
    (hnull : ∀ value, doc value ≠ .null) : Function.Injective (optionDoc doc) := by
  intro left right heq
  cases left with
  | none =>
      cases right with
      | none => rfl
      | some value => exact absurd heq.symm (hnull value)
  | some value =>
      cases right with
      | none => exact absurd heq (hnull value)
      | some other => exact congrArg some (h heq)

/-- Numbers that may be missing are told apart. -/
theorem optionDoc_integer_injective : Function.Injective (optionDoc Doc.integer) :=
  optionDoc_injective (fun _ _ h => Doc.integer.inj h) fun _ h => by cases h

/-- Texts that may be missing are told apart. -/
theorem optionDoc_string_injective : Function.Injective (optionDoc Doc.string) :=
  optionDoc_injective (fun _ _ h => Doc.string.inj h) fun _ h => by cases h

/-- Lists that may be missing are told apart. -/
theorem optionDoc_listDoc_injective : Function.Injective (optionDoc listDoc) := by
  refine optionDoc_injective (fun left right h => ?_) fun _ h => by cases h
  exact List.map_injective_iff.mpr (fun _ _ h => Doc.string.inj h) (Doc.array.inj h)

/-- Points in time are told apart. -/
theorem systemTimeDoc_injective : Function.Injective systemTimeDoc := by
  intro left right h
  simp only [systemTimeDoc, Doc.object.injEq, List.cons.injEq, Prod.mk.injEq, Doc.integer.injEq,
    Int.natCast_inj, true_and, and_true] at h
  omega

/-- Results are told apart. -/
theorem toDoc_result_injective : Function.Injective WhoisCacheResult.toDoc := by
  intro left right h
  simp only [WhoisCacheResult.toDoc, Doc.object.injEq, List.cons.injEq, Prod.mk.injEq, true_and,
    and_true, optionDoc_integer_injective.eq_iff, optionDoc_string_injective.eq_iff,
    optionDoc_listDoc_injective.eq_iff] at h
  cases left
  cases right
  simpa using h

/-- Entries are told apart. -/
theorem toDoc_injective : Function.Injective WhoisCacheEntry.toDoc := by
  intro left right h
  simp only [WhoisCacheEntry.toDoc, Doc.object.injEq, List.cons.injEq, Prod.mk.injEq, true_and,
    and_true, toDoc_result_injective.eq_iff, systemTimeDoc_injective.eq_iff,
    Doc.string.injEq] at h
  cases left
  cases right
  simpa using h

/-- The text of a cache file tells which entry it was written for. -/
theorem toStringPretty_injective : Function.Injective toStringPretty := by
  intro left right h
  exact toDoc_injective (pretty_injective 0 (String.ofList_injective h))

/-- The size of the text of an entry. -/
theorem utf8ByteSize_toStringPretty (entry : WhoisCacheEntry) :
    (toStringPretty entry).utf8ByteSize = len (pretty 0 entry.toDoc) :=
  utf8ByteSize_ofList _

/-- A format that writes entries as `serde_json` does. -/
def WritesPretty (json : Codec WhoisCacheEntry) : Prop :=
  ∀ entry, json.encode entry = toStringPretty entry

/-- A format that reads exactly what is written so. -/
noncomputable def prettyJson : Codec WhoisCacheEntry :=
  .ofInjective toStringPretty toStringPretty_injective

theorem writesPretty_prettyJson : WritesPretty prettyJson := fun _ => rfl

end DomainStatus.Whois
