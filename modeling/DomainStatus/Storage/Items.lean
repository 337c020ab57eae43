import DomainStatus.Storage.Schema

/-!
# Stored items

The rows of a record, table by table, as items of the record. A table whose unique columns cover
all that is stored keeps the distinct items, and a table with updates keeps the last item for each
value of its unique columns. Read `mergedRows_doNothing` and `mergedRows_doUpdate` first.
-/

namespace DomainStatus.Storage

open Fetch Secrets Whois

variable (readers : Readers) (write : WriteStrings) (record : PersistedUrlRecord)

/-! ## Batches -/

section Batches

/-- The values of a row in some of its columns. -/
def keyValues (columns unique : List String) (row : List Value) : List Value :=
  unique.map fun column => row.getD (columns.idxOf column) .null

/-- A batch merges its rows. -/
theorem mergedRows_batch (columns : List String) (conflict : ConflictClause)
    (rows start : List (List Value)) :
    mergedRows (Insert.batch columns conflict rows) start =
      rows.foldl ({ columns, conflict, rows } : Insert).onConflict.merge start := by
  cases rows <;> rfl

variable {γ μ : Type} [DecidableEq μ] {columns unique : List String} {encode : γ → List Value}

/-- Without updates the distinct items are stored, when the unique columns tell items apart. -/
theorem mergedRows_doNothing [BEq γ] [LawfulBEq γ]
    (hkey : ∀ old new,
      keyValues columns unique (encode old) = keyValues columns unique (encode new) → old = new)
    (items : List γ) :
    mergedRows (Insert.batch columns (.doNothing unique) (items.map encode)) [] =
      items.eraseDups.map encode := by
  rw [mergedRows_batch, ← OnConflict.mergeAll, OnConflict.mergeAll_map]
  refine congrArg _ (OnConflict.mergeAll_doNothing (fun _ => rfl) ?_ items)
  intro old new h
  exact hkey old new (Option.some.inj h)

/-- With updates the last item for each value of the unique columns is stored. -/
theorem mergedRows_doUpdate {key : γ → μ}
    (hkey : ∀ old new,
      keyValues columns unique (encode old) = keyValues columns unique (encode new) ↔
        key old = key new) (items : List γ) :
    mergedRows (Insert.batch columns (.doUpdate unique) (items.map encode)) [] =
      (OnConflict.lastOf key items).map encode := by
  rw [mergedRows_batch, ← OnConflict.mergeAll, OnConflict.mergeAll_map]
  exact congrArg _ (OnConflict.lastOf_congr hkey items)

/-- Statements are carried out one after the other. -/
theorem mergedRows_append (first second : List Insert) (start : List (List Value)) :
    mergedRows (first ++ second) start = mergedRows second (mergedRows first start) :=
  List.foldl_append

/-- The row for one text. -/
def textRow (value : String) : List Value :=
  [.text value]

/-- A single column stores each value once. -/
theorem mergedRows_singleColumn (column : String) (values : List String) :
    mergedRows (insertSingleColumnBatch column values) [] = values.eraseDups.map textRow := by
  refine mergedRows_doNothing (fun old new h => ?_) values
  simpa [keyValues, textRow] using h

/-- Different optional texts are bound differently. -/
theorem ofOption_text_inj {left right : Option String} :
    Value.ofOption .text left = Value.ofOption .text right ↔ left = right := by
  cases left <;> cases right <;> simp [Value.ofOption]

end Batches

/-! ## Core tables -/

section Core

/-- The technologies of which none is listed before with its version. -/
def distinctTechnologies (technologies : List Fingerprint.DetectedTechnology) :
    List Fingerprint.DetectedTechnology :=
  technologies.foldl (fun kept tech =>
    if kept.any fun other => other.name = tech.name ∧ other.version = tech.version then kept
    else kept ++ [tech]) []

/-- The row for a technology. -/
def technologyRow (tech : Fingerprint.DetectedTechnology) : List Value :=
  [.text tech.name, .ofOption .text tech.version, .ofOption .text tech.category,
    .ofBool tech.isImplied, .ofOption .text tech.detectionSource]

/-- Distinct technologies differ in name or version. -/
theorem pairwise_distinctTechnologies (technologies : List Fingerprint.DetectedTechnology) :
    (distinctTechnologies technologies).Pairwise fun old new =>
      ¬ (old.name = new.name ∧ old.version = new.version) := by
  induction technologies using List.reverseRecOn with
  | nil => exact List.Pairwise.nil
  | append_singleton technologies tech ih =>
      rw [distinctTechnologies, List.foldl_concat, ← distinctTechnologies]
      split
      case isTrue => exact ih
      case isFalse hnew =>
        refine List.pairwise_append.mpr ⟨ih, List.pairwise_singleton _ _, ?_⟩
        intro old hold other hother hsame
        rw [List.mem_singleton.mp hother] at hsame
        exact hnew (List.any_eq_true.mpr ⟨old, hold, by simpa using hsame⟩)

/-- The rows of the technologies. -/
theorem coreRows_technologies : coreRows readers record .technologies =
    (distinctTechnologies record.technologies).map technologyRow := by
  have hrows : coreRows readers record .technologies =
      mergedRows (Insert.batch Satellite.technologies.columns
        (.doNothing ["technology_name", "technology_version"])
        ((distinctTechnologies record.technologies).map technologyRow)) [] := rfl
  rw [hrows, mergedRows_batch, ← OnConflict.mergeAll, OnConflict.mergeAll_map]
  refine congrArg _ (OnConflict.mergeAll_eq_self ?_)
  refine (pairwise_distinctTechnologies record.technologies).imp fun {old new} hne => ?_
  rw [Bool.eq_false_iff]
  intro hclash
  have hkeys : [Value.text old.name, .ofOption .text old.version] =
      [Value.text new.name, .ofOption .text new.version] := by
    simpa [OnConflict.comap, OnConflict.clash, Insert.onConflict, Insert.columnValues,
      technologyRow, Satellite.columns, Satellite.schema, textColumn, textOrNull, integerColumn]
      using hclash
  simp only [List.cons.injEq, Value.text.injEq, ofOption_text_inj, and_true] at hkeys
  exact hne hkeys

/-- The row for a TXT record. -/
def txtRow (txt : String) : List Value :=
  [.text txt, .text (detectTxtType readers txt)]

/-- The answers of a lookup for `TXT` that are stored. -/
def storedTxts : List String :=
  ((parseJsonArray readers record.urlRecord.txtRecords).getD []).filter (Text.trim · ≠ "")

/-- The rows of the TXT records. -/
theorem coreRows_txtRecords : coreRows readers record .txtRecords =
    (storedTxts readers record).eraseDups.map (txtRow readers) := by
  refine mergedRows_doNothing (fun old new h => ?_) (storedTxts readers record)
  have htexts : [Value.text (detectTxtType readers old), .text old] =
      [Value.text (detectTxtType readers new), .text new] := h
  simpa using (List.cons.inj (List.cons.inj htexts).2).1

/-- The row for a mail exchange. -/
def mxRow (mx : ℤ × String) : List Value :=
  [.integer mx.1, .text mx.2]

/-- The mail exchanges that a record asks for. -/
def storedMxs : List (ℤ × String) :=
  (parseMxJsonArray readers record.urlRecord.mxRecords).getD []

/-- The rows of the mail exchanges. -/
theorem coreRows_mxRecords : coreRows readers record .mxRecords =
    (storedMxs readers record).eraseDups.map mxRow := by
  refine mergedRows_doNothing (fun old new h => ?_) _
  have hvalues : [Value.integer old.1, .text old.2] = [Value.integer new.1, .text new.2] := h
  simpa [Prod.ext_iff] using hvalues

/-- The row for a header. -/
def headerRow (header : String × String) : List Value :=
  [.text header.1, .text header.2]

/-- A map has each key once. -/
theorem nodup_pairs {κ ν : Type} (map : Fingerprint.HashMap κ ν) :
    ((HashMap.pairs map).map Prod.fst).Nodup := by
  rw [HashMap.pairs, List.map_map]
  exact map.nodupKeys

/-- The rows of the headers. -/
theorem mergedRows_headers (headers : Fingerprint.HashMap String String) :
    mergedRows (insertHeaders headers) [] = (HashMap.pairs headers).map headerRow := by
  have hupdate : mergedRows (insertHeaders headers) [] =
      (OnConflict.lastOf Prod.fst (HashMap.pairs headers)).map headerRow := by
    refine mergedRows_doUpdate (fun old new => ?_) _
    show [Value.text old.1] = [Value.text new.1] ↔ _
    simp
  rw [hupdate, OnConflict.lastOf_eq_self (nodup_pairs headers)]

/-- A hop of a chain with its place. -/
def redirectRow (hop : (String × UInt16) × ℕ) : List Value :=
  [.integer (toI32 (hop.2 + 1)), .text hop.1.1, .integer hop.1.2.toNat]

/-- The hops of a chain with their places. The number of a place has 32 bits, so a later hop of a
longer chain takes the place of an early one. -/
def storedHops : List ((String × UInt16) × ℕ) :=
  OnConflict.lastOf (fun hop => toI32 (hop.2 + 1)) record.redirectChain.zipIdx

/-- The rows of the redirects. -/
theorem coreRows_redirectChain : coreRows readers record .redirectChain =
    (storedHops record).map redirectRow := by
  have hrows : coreRows readers record .redirectChain =
      mergedRows (Insert.batch ["sequence_order", "redirect_url", "http_status"]
        (.doUpdate ["sequence_order"]) (record.redirectChain.zipIdx.map redirectRow)) [] := by
    simp only [coreRows, coreInserts, insertRedirectChain, List.mapIdx_eq_zipIdx_map]
    rfl
  rw [hrows]
  refine mergedRows_doUpdate (fun old new => ?_) _
  show [Value.integer _] = [Value.integer _] ↔ _
  simp

/-- A record for `CAA` that is stored. -/
structure CaaRecord where
  flag : ℤ
  tag : String
  value : String
  deriving DecidableEq

/-- The row for a CAA record. -/
def caaRow (caa : CaaRecord) : List Value :=
  [.integer caa.flag, .text caa.tag, .text caa.value]

/-- The CAA record of a JSON object. A missing field has its default. -/
def caaOf (object : Json) : CaaRecord where
  flag := toI32 (((object.get "flag").bind Json.asU64).getD 0)
  tag := ((object.get "tag").bind Json.asStr).getD ""
  value := ((object.get "value").bind Json.asStr).getD ""

/-- The CAA records that a record asks for, with the last flag for each tag and value. -/
def storedCaas : List CaaRecord :=
  OnConflict.lastOf (fun caa => (caa.tag, caa.value))
    ((((record.caaRecords.bind readers.json).bind Json.asArray).getD []).map caaOf)

/-- The rows of the CAA records. -/
theorem coreRows_caaRecords : coreRows readers record .caaRecords =
    (storedCaas readers record).map caaRow := by
  show mergedRows (insertCaaRecords readers record.caaRecords) [] = _
  have hrows : insertCaaRecords readers record.caaRecords =
      Insert.batch ["flag", "tag", "value"] (.doUpdate ["tag", "value"])
        (((((record.caaRecords.bind readers.json).bind Json.asArray).getD []).map caaOf).map
          caaRow) := by
    rw [List.map_map, insertCaaRecords]
    simp only [Function.comp_def, caaRow, caaOf]
  rw [hrows]
  refine mergedRows_doUpdate (fun old new => ?_) _
  show [Value.text old.tag, .text old.value] = [Value.text new.tag, .text new.value] ↔ _
  simp

/-- The row for a script host. -/
def scriptHostRow (host : ScriptHostInfo) : List Value :=
  [.text host.host, .ofOption .text host.registrableDomain, .ofBool host.isFirstParty]

/-- The rows of the script hosts. -/
theorem coreRows_scriptHosts : coreRows readers record .scriptHosts =
    (OnConflict.lastOf ScriptHostInfo.host record.scriptHosts).map scriptHostRow := by
  refine mergedRows_doUpdate (fun old new => ?_) _
  show [Value.text old.host] = [Value.text new.host] ↔ _
  simp

end Core

/-! ## Enrichment tables -/

section Enrichment

/-- The row for a tracking id. -/
def analyticsRow (analytics : AnalyticsId) : List Value :=
  [.text analytics.provider.asStr, .text analytics.id]

/-- The providers are written differently. -/
theorem AnalyticsProvider.asStr_inj {left right : AnalyticsProvider} :
    left.asStr = right.asStr ↔ left = right := by
  cases left <;> cases right <;> decide

/-- The platforms are written differently. -/
theorem SocialPlatform.asStr_inj {left right : SocialPlatform} :
    left.asStr = right.asStr ↔ left = right := by
  cases left <;> cases right <;> decide

/-- The kinds of contact are written differently. -/
theorem ContactType.asStr_inj {left right : ContactType} :
    left.asStr = right.asStr ↔ left = right := by
  cases left <;> cases right <;> decide

/-- Leaving out the empty list changes nothing that is stored. -/
theorem mergedRows_nonempty {α : Type} (items : List α) {writer : List α → List Insert}
    (h : writer [] = []) : ((nonempty items writer).getD []) = writer items := by
  cases items with
  | nil => exact h.symm
  | cons item rest => rfl

/-- The rows of the analytics ids. -/
theorem enrichmentRows_analyticsIds : enrichmentRows write record .analyticsIds =
    record.analyticsIds.eraseDups.map analyticsRow := by
  show mergedRows ((nonempty record.analyticsIds insertAnalyticsIds).getD []) [] = _
  rw [mergedRows_nonempty _ rfl]
  refine mergedRows_doNothing (fun old new h => ?_) record.analyticsIds
  have htexts : [Value.text old.provider.asStr, .text old.id] =
      [Value.text new.provider.asStr, .text new.id] := h
  obtain ⟨provider, id⟩ := old
  obtain ⟨provider', id'⟩ := new
  simpa [AnalyticsProvider.asStr_inj] using htexts

/-- The row for a link to social media. -/
def socialRow (link : SocialMediaLink) : List Value :=
  [.text link.platform.asStr, .text link.url, .ofOption .text link.identifier]

/-- The rows of the links to social media. -/
theorem enrichmentRows_socialMediaLinks : enrichmentRows write record .socialMediaLinks =
    (OnConflict.lastOf (fun link => (link.platform, link.url)) record.socialMediaLinks).map
      socialRow := by
  show mergedRows ((nonempty record.socialMediaLinks insertSocialMediaLinks).getD []) [] = _
  rw [mergedRows_nonempty _ rfl]
  refine mergedRows_doUpdate (fun old new => ?_) _
  show [Value.text old.platform.asStr, .text old.url] =
    [Value.text new.platform.asStr, .text new.url] ↔ _
  simp [SocialPlatform.asStr_inj]

/-- The row for a contact. -/
def contactRow (link : ContactLink) : List Value :=
  [.text link.contactType.asStr, .text link.value, .text link.rawHref]

/-- The rows of the contacts. -/
theorem enrichmentRows_contactLinks : enrichmentRows write record .contactLinks =
    (OnConflict.lastOf (fun link => (link.contactType, link.value)) record.contactLinks).map
      contactRow := by
  show mergedRows ((nonempty record.contactLinks insertContactLinks).getD []) [] = _
  rw [mergedRows_nonempty _ rfl]
  refine mergedRows_doUpdate (fun old new => ?_) _
  show [Value.text old.contactType.asStr, .text old.value] =
    [Value.text new.contactType.asStr, .text new.value] ↔ _
  simp [ContactType.asStr_inj]

/-- A property of structured data: the type of the data, its name and its value. -/
abbrev StructuredProperty := String × String × String

/-- The row for a property of the structured data. -/
def structuredRow (property : StructuredProperty) : List Value :=
  [.text property.1, .text property.2.1, .text property.2.2]

/-- The properties that structured data consists of. -/
def structuredProperties (data : StructuredData) : List StructuredProperty :=
  data.jsonLd.map (fun document => ("json_ld", "@document", document)) ++
    (HashMap.pairs data.openGraph).map (fun pair => ("open_graph", pair)) ++
    (HashMap.pairs data.twitterCards).map (fun pair => ("twitter_card", pair)) ++
    ((data.schemaTypes.map Text.trim).filter (· ≠ "")).map fun schema =>
      ("schema_type", schema, "")

/-- The rows of one kind of structured data. -/
theorem mergedRows_structuredRows (dataType : String) (rows : List (String × String))
    (start : List (List Value)) :
    mergedRows (insertStructuredRows dataType rows) start =
      ((rows.map fun pair => structuredRow (dataType, pair)).foldl
        (OnConflict.doNothing fun row => some (keyValues
          ["data_type", "property_name", "property_value"]
          ["data_type", "property_name", "property_value"] row)).merge start) :=
  mergedRows_batch _ _ _ _

/-- The rows of the structured data. -/
theorem enrichmentRows_structuredData : enrichmentRows write record .structuredData =
    ((record.structuredData.map structuredProperties).getD []).eraseDups.map structuredRow := by
  show mergedRows ((record.structuredData.map insertStructuredData).getD []) [] = _
  cases record.structuredData with
  | none => rfl
  | some data =>
      have hrows : mergedRows (insertStructuredData data) [] =
          (OnConflict.doNothing fun row => some (keyValues
            ["data_type", "property_name", "property_value"]
            ["data_type", "property_name", "property_value"] row)).mergeAll
              ((structuredProperties data).map structuredRow) := by
        simp only [insertStructuredData, mergedRows_append, mergedRows_structuredRows,
          OnConflict.mergeAll, structuredProperties, List.foldl_append, List.map_append,
          List.map_map, Function.comp_def]
      rw [Option.map_some, Option.getD_some, hrows, OnConflict.mergeAll_map]
      refine congrArg _ (OnConflict.mergeAll_doNothing (fun _ => rfl) ?_ _)
      rintro ⟨dataType, name, value⟩ ⟨dataType', name', value'⟩ h
      have htexts : [Value.text dataType, .text name, .text value] =
          [Value.text dataType', .text name', .text value'] := Option.some.inj h
      simpa using htexts

/-- The row for a secret. -/
def secretRow (secret : ExposedSecret) : List Value :=
  [.text secret.secretType, .text secret.matchedValue,
    .text (SecretSeverity.asStr secret.severity), .text secret.location, .text secret.context]

/-- The rows of the secrets, merged by key. -/
theorem mergedRows_secrets (secrets : List ExposedSecret) (start : List (List Value)) :
    mergedRows (secrets.map insertExposedSecret) start =
      (secrets.map secretRow).foldl
        (OnConflict.doUpdate fun row => some (secretKey row)).merge start := by
  induction secrets generalizing start with
  | nil => rfl
  | cons secret rest ih => exact ih _

/-- The rows of the secrets. -/
theorem enrichmentRows_exposedSecrets : enrichmentRows write record .exposedSecrets =
    (OnConflict.lastOf secretKeyOf record.exposedSecrets).map secretRow := by
  show mergedRows ((nonempty record.exposedSecrets fun secrets =>
    secrets.map insertExposedSecret).getD []) [] = _
  rw [mergedRows_nonempty _ rfl, mergedRows_secrets, ← OnConflict.mergeAll,
    OnConflict.mergeAll_map]
  rfl

/-- The row for where the server is. -/
def geoipRow (geoip : GeoIpResult) : List Value :=
  [.ofOption .text geoip.countryCode, .ofOption .text geoip.countryName,
    .ofOption .text geoip.region, .ofOption .text geoip.city, .ofOption .real geoip.latitude,
    .ofOption .real geoip.longitude, .ofOption .text geoip.postalCode,
    .ofOption .text geoip.timezone, .ofOption (fun asn => .integer asn.toNat) geoip.asn,
    .ofOption .text geoip.asnOrg]

/-- The row for where the server is. -/
theorem enrichmentRows_geoip : enrichmentRows write record .geoip =
    record.geoip.toList.map fun geoip => geoipRow geoip.2 := by
  show mergedRows ((record.geoip.map fun geoip => insertGeoipData geoip.2).getD []) [] = _
  cases record.geoip <;> rfl

/-- The row for the data of the domain. -/
def whoisRow (whois : WhoisResult) : List Value :=
  [.ofOption (fun date => .integer date.timestampMillis) whois.creationDate,
    .ofOption (fun date => .integer date.timestampMillis) whois.expirationDate,
    .ofOption (fun date => .integer date.timestampMillis) whois.updatedDate,
    .ofOption .text whois.registrar, .ofOption .text whois.registrantCountry,
    .ofOption .text whois.registrantOrg, vecToJsonOrNull write whois.status,
    vecToJsonOrNull write whois.nameservers, .ofOption .text whois.rawText]

/-- The row for the data of the domain. -/
theorem enrichmentRows_whois : enrichmentRows write record .whois =
    record.whois.toList.map (whoisRow write) := by
  show mergedRows ((record.whois.map (insertWhoisData write)).getD []) [] = _
  cases record.whois <;> rfl

/-- The row for a favicon. -/
def faviconRow (favicon : FaviconData) : List Value :=
  [.text favicon.faviconUrl, .integer favicon.hash]

/-- The row of the favicon. -/
theorem enrichmentRows_favicons : enrichmentRows write record .favicons =
    record.favicon.toList.map faviconRow := by
  show mergedRows ((record.favicon.map insertFaviconData).getD []) [] = _
  cases record.favicon <;> rfl

end Enrichment

end DomainStatus.Storage
