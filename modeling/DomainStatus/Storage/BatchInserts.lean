import DomainStatus.Fetch.ExternalScripts
import DomainStatus.Storage.Items

/-!
# Batch inserts and the variable limit

The texts of the statements that `build_batch_insert_query` of `src/storage/insert/utils.rs` builds
for the writers of satellite rows, with the values that are bound to them. A list is written by one
statement, however long it is. `runInserts_variableLimit` says which lists SQLite takes.
-/

namespace DomainStatus.Storage

open Fetch Security

/-- SQLite's default limit of bound variables in a statement. -/
def sqliteMaxVariables : ℕ := 32766

/-- The placeholder for a row. -/
def rowPlaceholder (columns : ℕ) : List Char :=
  '(' :: ([',', ' '].intercalate (List.replicate columns ['?']) ++ [')'])

/-- The text of an INSERT with some rows. -/
def buildBatchInsertQuery (tableName : String) (columns : List String) (rowCount : ℕ)
    (conflictClause : Option String) : List Char :=
  if rowCount = 0 then []
  else
    "INSERT INTO ".toList ++ tableName.toList ++ " (".toList ++
      [',', ' '].intercalate (columns.map String.toList) ++ ") VALUES ".toList ++
      [',', ' '].intercalate (List.replicate rowCount (rowPlaceholder columns.length)) ++
      conflictClause.elim [] fun conflict => ' ' :: conflict.toList

/-- The conflict clauses of the tables that are written in batches. -/
def batchClause : Satellite → Option String
  | .technologies => some "ON CONFLICT DO NOTHING"
  | .nameservers => some "ON CONFLICT(url_status_id, nameserver) DO NOTHING"
  | .txtRecords => some "ON CONFLICT(url_status_id, record_type, record_value) DO NOTHING"
  | .mxRecords => some "ON CONFLICT(url_status_id, priority, mail_exchange) DO NOTHING"
  | .securityHeaders | .httpHeaders =>
      some
        ("ON CONFLICT(url_status_id, header_name) DO UPDATE SET " ++
          "header_value=excluded.header_value")
  | .certificateOids => some "ON CONFLICT(url_status_id, oid) DO NOTHING"
  | .redirectChain =>
      some
        ("ON CONFLICT(url_status_id, sequence_order) DO UPDATE SET " ++
          "redirect_url=excluded.redirect_url, http_status=excluded.http_status")
  | .certificateSans => some "ON CONFLICT(url_status_id, san_value) DO NOTHING"
  | .cnameRecords => some "ON CONFLICT(url_status_id, cname_target) DO NOTHING"
  | .ipv6Addresses => some "ON CONFLICT(url_status_id, ipv6_address) DO NOTHING"
  | .caaRecords =>
      some "ON CONFLICT(url_status_id, tag, value) DO UPDATE SET flag=excluded.flag"
  | .cspDomains => some "ON CONFLICT(url_status_id, directive, fqdn) DO NOTHING"
  | .cookies =>
      some
        ("ON CONFLICT(url_status_id, cookie_name) DO UPDATE SET " ++
          "secure=excluded.secure, http_only=excluded.http_only, " ++
          "same_site=excluded.same_site, domain=excluded.domain, path=excluded.path")
  | .resourceHints => some "ON CONFLICT(url_status_id, hint_type, href) DO NOTHING"
  | .scriptHosts =>
      some
        ("ON CONFLICT(url_status_id, host) DO UPDATE SET " ++
          "registrable_domain=excluded.registrable_domain, " ++
          "is_first_party=excluded.is_first_party")
  | .robotsDirectives => some "ON CONFLICT(url_status_id, directive, value) DO NOTHING"
  | .analyticsIds => some "ON CONFLICT(url_status_id, provider, tracking_id) DO NOTHING"
  | .structuredData =>
      some "ON CONFLICT(url_status_id, data_type, property_name, property_value) DO NOTHING"
  | .socialMediaLinks =>
      some
        ("ON CONFLICT(url_status_id, platform, profile_url) DO UPDATE SET " ++
          "identifier=excluded.identifier")
  | .contactLinks =>
      some
        ("ON CONFLICT(url_status_id, contact_type, contact_value) DO UPDATE SET " ++
          "raw_href=excluded.raw_href")
  | _ => none

namespace Insert

/-- The text of a batch statement. -/
def query (insert : Insert) (table : Satellite) : List Char :=
  buildBatchInsertQuery table.name ("url_status_id" :: insert.columns) insert.rows.length
    (batchClause table)

/-- The values that are bound to a batch statement. -/
def binds (insert : Insert) (parent : ℕ) : List Value :=
  insert.rows.flatMap fun row => .integer parent :: row

end Insert

/-- The statements that a record asks for, in both transactions. -/
def recordInserts (readers : Readers) (write : WriteStrings) (record : PersistedUrlRecord)
    (table : Satellite) : List Insert :=
  coreInserts readers record table ++ (enrichmentInserts write record table).getD []

/-- The statements that fail for their number of variables. -/
def variableLimitFaults (inserts : Satellite → List Insert) (parent : ℕ) : Faults
  | .insert table index =>
      ((inserts table)[index]?).bind fun insert =>
        if sqliteMaxVariables < (insert.binds parent).length then some "too many SQL variables"
        else none
  | _ => none

variable {readers : Readers} {write : WriteStrings} {record : PersistedUrlRecord}
  {table : Satellite} {insert : Insert} {parent : ℕ}

/-! ## Placeholders -/

/-- Separators have no placeholder. -/
theorem count_intercalate (parts : List (List Char)) :
    ([',', ' '].intercalate parts).count '?' = (parts.map (List.count '?')).sum := by
  induction parts with
  | nil => rfl
  | cons first rest ih =>
      cases rest with
      | nil => simp
      | cons second rest =>
          rw [List.intercalate_cons_cons, List.count_append, List.count_append, ih, List.map_cons,
            List.sum_cons]
          rfl

/-- A row has a placeholder for each column. -/
theorem count_rowPlaceholder (columns : ℕ) : (rowPlaceholder columns).count '?' = columns := by
  have hmarks : ((List.replicate columns ['?']).map (List.count '?')).sum = columns := by simp
  rw [rowPlaceholder, List.count_cons, List.count_append, count_intercalate, hmarks]
  rfl

/-- A statement has a placeholder for every column of every row. -/
theorem count_buildBatchInsertQuery {tableName : String} {columns : List String} {rowCount : ℕ}
    {conflictClause : Option String} (htable : '?' ∉ tableName.toList)
    (hcolumns : ∀ column ∈ columns, '?' ∉ column.toList)
    (hconflict : ∀ conflict ∈ conflictClause, '?' ∉ conflict.toList) :
    (buildBatchInsertQuery tableName columns rowCount conflictClause).count '?' =
      columns.length * rowCount := by
  rw [buildBatchInsertQuery]
  split_ifs with hzero
  · rw [hzero]
    rfl
  · have hnames : ((columns.map String.toList).map (List.count '?')).sum = 0 := by
      rw [List.map_map]
      have hzeros : columns.map (List.count '?' ∘ String.toList) = columns.map fun _ => 0 :=
        List.map_congr_left fun column hcolumn =>
          List.count_eq_zero_of_not_mem (hcolumns column hcolumn)
      rw [hzeros]
      simp
    have hrows : ((List.replicate rowCount (rowPlaceholder columns.length)).map
        (List.count '?')).sum = rowCount * columns.length := by
      simp [count_rowPlaceholder]
    have hclause : (conflictClause.elim [] fun conflict => ' ' :: conflict.toList).count '?' =
        0 := by
      cases conflictClause with
      | none => rfl
      | some conflict =>
          have hmark : '?' ∉ ' ' :: conflict.toList :=
            List.not_mem_cons_of_ne_of_not_mem (by decide) (hconflict conflict rfl)
          exact List.count_eq_zero_of_not_mem hmark
    have hinto : "INSERT INTO ".toList.count '?' = 0 := by decide
    have hopen : " (".toList.count '?' = 0 := by decide
    have hvalues : ") VALUES ".toList.count '?' = 0 := by decide
    rw [List.count_append, List.count_append, List.count_append, List.count_append,
      List.count_append, List.count_append, count_intercalate, count_intercalate, hnames, hrows,
      hclause, hinto, hopen, hvalues, List.count_eq_zero_of_not_mem htable, Nat.mul_comm]
    omega

/-! ## The statements of the writers -/

/-- A statement whose rows have a value for every column, and whose columns are plain names. -/
structure Insert.Shaped (insert : Insert) : Prop where
  row_length : ∀ row ∈ insert.rows, row.length = insert.columns.length
  columns : ∀ column ∈ insert.columns, '?' ∉ column.toList

/-- Of every row the parent and each column are bound. -/
theorem Insert.length_binds (h : insert.Shaped) :
    (insert.binds parent).length = (insert.columns.length + 1) * insert.rows.length := by
  rw [Insert.binds, List.length_flatMap]
  have hlengths : (insert.rows.map fun row => (Value.integer parent :: row).length) =
      insert.rows.map fun _ => insert.columns.length + 1 :=
    List.map_congr_left fun row hrow => by rw [List.length_cons, h.row_length row hrow]
  rw [hlengths]
  simp [Nat.mul_comm]

/-- No table has a question mark in its name. -/
theorem mark_not_mem_name (table : Satellite) : '?' ∉ table.name.toList := by
  cases table <;> exact Text.not_mem_toList rfl (by decide)

/-- No clause has a question mark. -/
theorem mark_not_mem_clause {conflict : String} (h : conflict ∈ batchClause table) :
    '?' ∉ conflict.toList := by
  rw [Option.mem_def] at h
  cases table
  all_goals cases h
  all_goals try simp only [String.toList_append, List.mem_append, not_or]
  all_goals repeat' apply And.intro
  all_goals exact Text.not_mem_toList rfl (by decide)

/-- The query has a placeholder for each value. -/
theorem Insert.count_query (h : insert.Shaped) :
    (insert.query table).count '?' = (insert.columns.length + 1) * insert.rows.length := by
  rw [Insert.query, count_buildBatchInsertQuery (mark_not_mem_name table)
    (List.forall_mem_cons.mpr ⟨Text.not_mem_toList rfl (by decide), h.columns⟩)
    fun conflict => mark_not_mem_clause, List.length_cons]

/-- Batches of rows that are made of items. -/
theorem shaped_batch {α : Type} {columns : List String} {conflict : ConflictClause}
    {items : List α} {row : α → List Value} (hrow : ∀ item, (row item).length = columns.length)
    (hcolumns : ∀ column ∈ columns, '?' ∉ column.toList) :
    ∀ insert ∈ Insert.batch columns conflict (items.map row), insert.Shaped := by
  intro insert hinsert
  rw [Insert.batch] at hinsert
  split_ifs at hinsert
  · cases hinsert
  · rw [List.mem_singleton] at hinsert
    subst hinsert
    refine ⟨fun values hvalues => ?_, hcolumns⟩
    obtain ⟨item, -, rfl⟩ := List.mem_map.mp hvalues
    exact hrow item

/-- Statements stay shaped where an empty list has none. -/
theorem shaped_nonempty {α : Type} {items : List α} {writer : List α → List Insert}
    (h : ∀ insert ∈ writer items, insert.Shaped) :
    ∀ insert ∈ (nonempty items writer).getD [], insert.Shaped := by
  rw [nonempty]
  split_ifs
  · exact List.forall_mem_nil _
  · exact h

/-- The statements of structured data are shaped. -/
theorem shaped_structuredData (data : StructuredData) :
    ∀ insert ∈ insertStructuredData data, insert.Shaped := by
  have hrows : ∀ dataType rows, ∀ insert ∈ insertStructuredRows dataType rows, insert.Shaped :=
    fun dataType rows => shaped_batch (fun _ => rfl) (by decide)
  intro insert hinsert
  rw [insertStructuredData, List.mem_append, List.mem_append, List.mem_append] at hinsert
  rcases hinsert with ((h | h) | h) | h <;> exact hrows _ _ insert h

/-- The statement of the redirects is shaped. -/
theorem shaped_redirectChain (chain : List (String × UInt16)) :
    ∀ insert ∈ insertRedirectChain chain, insert.Shaped := by
  rw [insertRedirectChain, List.mapIdx_eq_zipIdx_map]
  exact shaped_batch (fun _ => rfl) (by decide)

/-- The statement of the robots directives is shaped. -/
theorem shaped_robotsDirectives (data : Option RobotsTxtData) :
    ∀ insert ∈ (data.map fun data => insertRobotsDirectives data.directives).getD [],
      insert.Shaped := by
  cases data with
  | none => exact List.forall_mem_nil _
  | some data => exact shaped_batch (fun _ => rfl) (by decide)

/-- Every batch statement of a record has a value for every column of every row. -/
theorem shaped_recordInserts (hbatch : (batchClause table).isSome) :
    ∀ insert ∈ recordInserts readers write record table, insert.Shaped := by
  rw [recordInserts, List.forall_mem_append]
  cases table
  case redirectChain => exact ⟨shaped_redirectChain _, List.forall_mem_nil _⟩
  case robotsDirectives => exact ⟨shaped_robotsDirectives _, List.forall_mem_nil _⟩
  case structuredData =>
    refine ⟨List.forall_mem_nil _, ?_⟩
    rw [enrichmentInserts]
    cases record.structuredData with
    | none => exact List.forall_mem_nil _
    | some data => exact shaped_structuredData data
  case socialMediaLinks | contactLinks | analyticsIds =>
    exact ⟨List.forall_mem_nil _, shaped_nonempty (shaped_batch (fun _ => rfl) (by decide))⟩
  case securityTxt | robotsTxt | exposedSecrets | partialFailures | favicons | geoip | whois =>
    cases hbatch
  all_goals exact ⟨shaped_batch (fun _ => rfl) (by decide), List.forall_mem_nil _⟩

/-! ## The variable limit -/

/-- The statements of a writer from number `index` on run when none of them is too large. -/
theorem runInserts_variableLimit {inserts : Satellite → List Insert} (done : List Insert)
    {rest : List Insert} (hsplit : inserts table = done ++ rest) (db : Database) :
    (runInserts (variableLimitFaults inserts parent) table parent done.length rest db).1 = .ok () ↔
      ∀ insert ∈ rest, (insert.binds parent).length ≤ sqliteMaxVariables := by
  induction rest generalizing done db with
  | nil => exact iff_of_true rfl (List.forall_mem_nil _)
  | cons insert rest ih =>
      have hindex : (inserts table)[done.length]? = some insert := by
        rw [hsplit, List.getElem?_append_right (Nat.le_refl _), Nat.sub_self]
        rfl
      have hfault : variableLimitFaults inserts parent (.insert table done.length) =
          if sqliteMaxVariables < (insert.binds parent).length then some "too many SQL variables"
          else none := by
        rw [variableLimitFaults, hindex, Option.bind_some]
      have hnext : inserts table = (done ++ [insert]) ++ rest := by
        rw [hsplit, List.append_assoc, List.singleton_append]
      have hrest := ih (done ++ [insert]) hnext (db.insert table parent insert)
      rw [List.length_append, List.length_singleton] at hrest
      rw [runInserts, hfault, List.forall_mem_cons]
      split_ifs with hlarge
      · exact iff_of_false (by rintro ⟨⟩) fun h => absurd h.1 (by omega)
      · rw [hrest]
        exact ⟨fun h => ⟨by omega, h⟩, fun h => h.2⟩

/-- A list with its number of columns is within the limit. The number of the page is a column of
every table. -/
def ListFits (columns rows : ℕ) : Prop :=
  columns * rows ≤ sqliteMaxVariables

/-- The lists of a record that are written in batches, by the table they go to, are short enough. -/
def FitsVariableLimit (readers : Readers) (record : PersistedUrlRecord) : Satellite → Prop
  | .technologies => ListFits 6 (distinctTechnologies record.technologies).length
  | .nameservers =>
      ListFits 2 ((parseJsonArray readers record.urlRecord.nameservers).getD []).length
  | .txtRecords =>
      ListFits 3 (((parseJsonArray readers record.urlRecord.txtRecords).getD []).filter fun txt =>
        Text.trim txt ≠ "").length
  | .mxRecords => ListFits 3 ((parseMxJsonArray readers record.urlRecord.mxRecords).getD []).length
  | .securityHeaders => ListFits 3 (HashMap.pairs record.securityHeaders).length
  | .httpHeaders => ListFits 3 (HashMap.pairs record.httpHeaders).length
  | .certificateOids => ListFits 2 record.oids.length
  | .redirectChain => ListFits 4 record.redirectChain.length
  | .certificateSans => ListFits 2 record.subjectAlternativeNames.length
  | .cnameRecords => ListFits 2 ((parseJsonArray readers record.cnameRecords).getD []).length
  | .ipv6Addresses => ListFits 2 ((parseJsonArray readers record.aaaaRecords).getD []).length
  | .caaRecords =>
      ListFits 4 (((record.caaRecords.bind readers.json).bind Json.asArray).getD []).length
  | .cspDomains => ListFits 4 record.cspDomains.length
  | .cookies => ListFits 7 record.cookies.length
  | .resourceHints => ListFits 3 record.resourceHints.length
  | .scriptHosts => ListFits 4 record.scriptHosts.length
  | .robotsDirectives => ∀ data ∈ record.robotsTxt, ListFits 3 data.directives.length
  | .analyticsIds => ListFits 3 record.analyticsIds.length
  | .socialMediaLinks => ListFits 4 record.socialMediaLinks.length
  | .contactLinks => ListFits 4 record.contactLinks.length
  | .structuredData => ∀ data ∈ record.structuredData,
      ListFits 4 data.jsonLd.length ∧ ListFits 4 (HashMap.pairs data.openGraph).length ∧
        ListFits 4 (HashMap.pairs data.twitterCards).length ∧
        ListFits 4 ((data.schemaTypes.map Text.trim).filter (· ≠ "")).length
  | _ => True

/-- The statements for a table are within the limit, and so are their placeholders. -/
def WithinLimit (inserts : List Insert) : Prop :=
  ∀ insert ∈ inserts, (insert.columns.length + 1) * insert.rows.length ≤ sqliteMaxVariables

/-- No statement, no limit. -/
theorem withinLimit_nil : WithinLimit [] :=
  List.forall_mem_nil _

/-- Two lists of statements stay within the limit together. -/
theorem withinLimit_append {first second : List Insert} :
    WithinLimit (first ++ second) ↔ WithinLimit first ∧ WithinLimit second :=
  List.forall_mem_append

/-- A batch stays within the limit if its rows are few enough. -/
theorem withinLimit_batch {columns : List String} {conflict : ConflictClause}
    {rows : List (List Value)} :
    WithinLimit (Insert.batch columns conflict rows) ↔
      ListFits (columns.length + 1) rows.length := by
  rw [Insert.batch]
  split_ifs with hempty
  · rw [List.isEmpty_iff.mp hempty]
    exact iff_of_true withinLimit_nil (Nat.zero_le _)
  · exact List.forall_mem_singleton

/-- Leaving out the empty list does not matter to the limit. -/
theorem withinLimit_nonempty {α : Type} {items : List α} {writer : List α → List Insert} {n : ℕ}
    (h : WithinLimit (writer items) ↔ ListFits n items.length) :
    WithinLimit ((nonempty items writer).getD []) ↔ ListFits n items.length := by
  rw [nonempty]
  split_ifs with hempty
  · rw [List.isEmpty_iff.mp hempty]
    exact iff_of_true withinLimit_nil (Nat.zero_le _)
  · exact h

/-- A batch of rows that are made of items. -/
theorem withinLimit_items {α : Type} {columns : List String} {conflict : ConflictClause}
    {items : List α} {row : α → List Value} {n : ℕ} (hcolumns : columns.length + 1 = n) :
    WithinLimit (Insert.batch columns conflict (items.map row)) ↔ ListFits n items.length := by
  rw [withinLimit_batch, List.length_map, hcolumns]

/-- When structured data stays within the limit. -/
theorem withinLimit_structuredData (data : StructuredData) :
    WithinLimit (insertStructuredData data) ↔
      ListFits 4 data.jsonLd.length ∧ ListFits 4 (HashMap.pairs data.openGraph).length ∧
        ListFits 4 (HashMap.pairs data.twitterCards).length ∧
        ListFits 4 ((data.schemaTypes.map Text.trim).filter (· ≠ "")).length := by
  have hrows : ∀ dataType rows, WithinLimit (insertStructuredRows dataType rows) ↔
      ListFits 4 rows.length := fun dataType rows => withinLimit_items rfl
  rw [insertStructuredData, withinLimit_append, withinLimit_append, withinLimit_append, hrows,
    hrows, hrows, hrows, List.length_map, List.length_map, and_assoc, and_assoc]

/-- When the redirects stay within the limit. -/
theorem withinLimit_redirectChain (chain : List (String × UInt16)) :
    WithinLimit (insertRedirectChain chain) ↔ ListFits 4 chain.length := by
  rw [insertRedirectChain, withinLimit_batch, List.length_mapIdx]
  rfl

/-- A list that may be missing. -/
theorem withinLimit_getD {α : Type} {data : Option α} {writer : α → List Insert}
    {fits : α → Prop} (h : ∀ item, WithinLimit (writer item) ↔ fits item) :
    WithinLimit ((data.map writer).getD []) ↔ ∀ item ∈ data, fits item := by
  cases data with
  | none => exact iff_of_true withinLimit_nil fun item hitem => by cases hitem
  | some item => simp [h]

/-- The statements for a table are within the limit exactly when the lists for it are short
enough. -/
theorem withinLimit_recordInserts (hbatch : (batchClause table).isSome) :
    WithinLimit (recordInserts readers write record table) ↔
      FitsVariableLimit readers record table := by
  rw [recordInserts, withinLimit_append]
  cases table
  case redirectChain =>
    exact (and_iff_left withinLimit_nil).trans (withinLimit_redirectChain _)
  case robotsDirectives =>
    exact (and_iff_left withinLimit_nil).trans
      (withinLimit_getD fun data => withinLimit_items rfl)
  case structuredData =>
    exact (and_iff_right withinLimit_nil).trans (withinLimit_getD withinLimit_structuredData)
  case socialMediaLinks | contactLinks | analyticsIds =>
    exact (and_iff_right withinLimit_nil).trans (withinLimit_nonempty (withinLimit_items rfl))
  case securityTxt | robotsTxt | exposedSecrets | partialFailures | favicons | geoip | whois =>
    cases hbatch
  all_goals exact (and_iff_left withinLimit_nil).trans (withinLimit_items rfl)

/-- Every statement that a record asks for is within the limit of variables and binds as many values
as it has placeholders, and no list is lost for being large, exactly when the lists of the record
are short enough: a list is written by one statement. -/
theorem batch_statements_within_limit_iff (readers : Readers) (write : WriteStrings)
    (record : PersistedUrlRecord) (parent : ℕ) (db : Database) :
    let inserts := recordInserts readers write record
    (∀ table, (batchClause table).isSome →
      (∀ insert ∈ inserts table,
        (insert.columns.length + 1) * insert.rows.length ≤ 32766 ∧
        (insert.query table).count '?' = (insert.columns.length + 1) * insert.rows.length ∧
        (insert.binds parent).length = (insert.query table).count '?') ∧
      (runInserts (variableLimitFaults inserts parent) table parent 0 (inserts table) db).1 =
        .ok ()) ↔
    ∀ table, FitsVariableLimit readers record table := by
  intro inserts
  have hshaped : ∀ table, (batchClause table).isSome → ∀ insert ∈ inserts table, insert.Shaped :=
    fun table => shaped_recordInserts
  have hrun : ∀ table, (batchClause table).isSome →
      ((runInserts (variableLimitFaults inserts parent) table parent 0 (inserts table) db).1 =
        .ok () ↔ FitsVariableLimit readers record table) := by
    intro table hbatch
    refine (runInserts_variableLimit [] (List.nil_append _).symm db).trans ?_
    rw [← withinLimit_recordInserts hbatch]
    exact forall₂_congr fun insert hinsert => by
      rw [Insert.length_binds (hshaped table hbatch insert hinsert)]
  constructor
  · intro h table
    by_cases hbatch : (batchClause table).isSome
    · exact (hrun table hbatch).mp (h table hbatch).2
    · cases table
      all_goals trivial
  · intro h table hbatch
    refine ⟨fun insert hinsert => ⟨?_, ?_, ?_⟩, (hrun table hbatch).mpr (h table)⟩
    · exact (withinLimit_recordInserts hbatch).mpr (h table) insert hinsert
    · exact Insert.count_query (hshaped table hbatch insert hinsert)
    · have hsame := hshaped table hbatch insert hinsert
      rw [Insert.length_binds hsame, Insert.count_query hsame]

/-! ## A page with many hints -/

/-- The attributes of a `link` element that is a resource hint. -/
structure LinkElement where
  rel : Option String
  href : Option String

/-- The host of a hint that names one. -/
def hintHostname (U : UrlCrate) (toLowercase : String → String) (href : String) : Option String :=
  if Text.startsWith href "//" then urlHost U ("https:" ++ href)
  else if Text.startsWith href "http://" || Text.startsWith href "https://" then urlHost U href
  else
    some (toLowercase (String.ofList (Text.trimEndMatches (fun c => c == '/') href.toList)))

/-- The resource hints of a page, after `src/fetch/response/html.rs`. -/
def extractResourceHints (U : UrlCrate) (toLowercase : String → String)
    (elements : List LinkElement) : List (String × String) :=
  elements.filterMap fun element => do
    let rel ← element.rel
    let href ← element.href.filter fun href => href ≠ ""
    let relLower := Text.toAsciiLowercase rel
    if relLower = "preconnect" ∨ relLower = "dns-prefetch" then
      let hostname ← hintHostname U toLowercase href
      if hostname = "" ∨ ¬Text.contains hostname.toList ['.'] then none
      else some (relLower, hostname)
    else some (relLower, href)

/-- `MAX_RESPONSE_BODY_SIZE`. -/
def maxResponseBodySize : ℕ := 2 * 1024 * 1024

/-- The shortest element with a resource hint. -/
def preloadTag : List Char := "<link rel=preload href=a>".toList

/-- What an HTML parser selects from a body that is made of such tags. -/
def preloadLinks (body : List Char) : List LinkElement :=
  List.replicate (body.length / preloadTag.length) ⟨some "preload", some "a"⟩

/-- Every preload tag gives one hint. -/
theorem extractResourceHints_preload (U : UrlCrate) (toLowercase : String → String) (count : ℕ) :
    extractResourceHints U toLowercase (List.replicate count ⟨some "preload", some "a"⟩) =
      List.replicate count ("preload", "a") := by
  rw [extractResourceHints, List.filterMap_replicate_of_some]
  rfl

/-- The length of a repeated tag. -/
theorem length_flatten_replicate (count : ℕ) (tag : List Char) :
    (List.replicate count tag).flatten.length = count * tag.length := by
  simp

/-- The bytes of a repeated tag. -/
theorem len_flatten_replicate (count : ℕ) (tag : List Char) :
    Text.len (List.replicate count tag).flatten = count * Text.len tag := by
  simp [Text.len, List.map_flatten, List.sum_flatten]

/-- A page of 10923 hints is well below the limit of a body, and its hints are lost. -/
theorem many_resource_hints_lost :
    let body := (List.replicate 10923 preloadTag).flatten
    let record : PersistedUrlRecord :=
      { urlRecord := default
        resourceHints := extractResourceHints exampleUrlCrate id (preloadLinks body) }
    let inserts := recordInserts ⟨fun _ => none, id⟩ (fun _ => "") record
    Text.len body ≤ maxResponseBodySize ∧
      (∃ insert ∈ inserts .resourceHints,
        32766 < (insert.columns.length + 1) * insert.rows.length) ∧
      (runInserts (variableLimitFaults inserts 1) .resourceHints 1 0 (inserts .resourceHints)
        .empty).1 ≠ .ok () := by
  intro body record inserts
  have hlength : body.length = 10923 * preloadTag.length := length_flatten_replicate _ _
  have hhints : record.resourceHints = List.replicate 10923 ("preload", "a") := by
    change extractResourceHints exampleUrlCrate id (preloadLinks body) = _
    rw [preloadLinks, hlength, Nat.mul_div_cancel _ (by decide), extractResourceHints_preload]
  have hinserts : inserts .resourceHints = insertResourceHints record.resourceHints :=
    List.append_nil _
  obtain ⟨insert, hinsert, hcolumns, hrows⟩ : ∃ insert, inserts .resourceHints = [insert] ∧
      insert.columns.length = 2 ∧ insert.rows.length = 10923 := by
    rw [hinserts, hhints, insertResourceHints, List.map_replicate, Insert.batch,
      List.isEmpty_replicate, if_neg (by decide)]
    exact ⟨_, rfl, rfl, List.length_replicate⟩
  refine ⟨?_, ⟨insert, hinsert ▸ List.mem_singleton_self _, ?_⟩, fun hok => ?_⟩
  · have hbytes : Text.len body = 10923 * Text.len preloadTag := len_flatten_replicate _ _
    rw [hbytes]
    decide
  · rw [hcolumns, hrows]
    decide
  · have hfits : ∀ insert ∈ inserts .resourceHints, (insert.binds 1).length ≤ sqliteMaxVariables :=
      (runInserts_variableLimit [] (List.nil_append _).symm .empty).mp hok
    have hshaped : ∀ insert ∈ inserts .resourceHints, insert.Shaped := shaped_recordInserts rfl
    rw [hinsert, List.forall_mem_singleton] at hfits hshaped
    rw [Insert.length_binds hshaped, hcolumns, hrows, sqliteMaxVariables] at hfits
    omega

end DomainStatus.Storage
