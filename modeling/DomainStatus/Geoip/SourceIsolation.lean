import DomainStatus.Geoip.Init
import DomainStatus.Lib.Trace

/-!
# Databases and their sources

Runs of `init_geoip` and `load_from_url` on one cache directory. Read `FromDownloads` first:
whatever the calls, the cached files and the open database are from downloads, each with the
metadata of its own. By `geoip_isolated_iff` the calls return databases of the URLs that they were
asked for exactly as long as the cached one is from there and the open one has not expired.
-/

namespace DomainStatus.Geoip

open Security

variable {C : GeoipCrates} (U : UrlCrate)

/-! ## Runs -/

/-- A call of `init_geoip` or of `load_from_url`, with what it meets. The license key and the files
outside the cache may be others at every call. -/
inductive Call where
  | initGeoip (geoipPath licenseKey : Option String) (files : Disk) (city asn : Surroundings)
  | loadFromUrl (edition : Edition) (url : String) (around : Surroundings)

variable (cacheDir : String)

/-- The path is one of the files of the cache. -/
def IsCachePath (path : String) : Prop :=
  ∃ edition : Edition, path = (geoipCachePaths cacheDir edition.dbName).1 ∨
    path = (geoipCachePaths cacheDir edition.dbName).2

instance (path : String) : Decidable (IsCachePath cacheDir path) :=
  decidable_of_iff (∃ edition ∈ [Edition.city, Edition.asn],
      path = (geoipCachePaths cacheDir edition.dbName).1 ∨
        path = (geoipCachePaths cacheDir edition.dbName).2) <| by
    constructor
    · intro h
      obtain ⟨edition, -, hpath⟩ := h
      exact ⟨edition, hpath⟩
    · intro h
      obtain ⟨edition, hpath⟩ := h
      exact ⟨edition, by cases edition <;> simp, hpath⟩

/-- The cache as the calls left it, among files that may have changed. -/
def World.among (world : World C) (files : Disk) : World C :=
  { world with
    disk := fun path => if IsCachePath cacheDir path then world.disk path else files path }

/-- The world when a call starts. -/
def Call.started (world : World C) : Call → World C
  | .initGeoip _ _ files city _ => (world.among cacheDir files).wait city.starts
  | .loadFromUrl _ _ around => world.wait around.starts

/-- The world after a call. -/
def step (world : World C) : Call → Option (World C)
  | .initGeoip geoipPath licenseKey files city asn =>
      some (initGeoip U city asn geoipPath licenseKey cacheDir (world.among cacheDir files)).2
  | .loadFromUrl edition url around =>
      some (loadFromUrl U around url cacheDir edition.dbName (world.wait around.starts)).2

/-- Nothing is cached and nothing is open. -/
def World.init : World C :=
  { disk := fun _ => none, cityReader := none, asnReader := none, now := 0, downloads := [] }

/-- The database is from a download of this URL that is not older than the time to live. -/
def FromSource (start : ℕ) (url : String) (downloads : List Download) (loaded : Loaded C) : Prop :=
  ∃ download ∈ downloads, download.url = url ∧ download.Gives loaded ∧
    Cache.durationExceedsTtl (start - download.time) cacheTtlSecs = false

/-- The URL from which a call wants the database. -/
def Call.asksFor (world : World C) : Call → Option String
  | .initGeoip geoipPath licenseKey files city asn =>
      let started := (Call.initGeoip geoipPath licenseKey files city asn).started cacheDir world
      (resolveGeoipSource C started.now geoipPath licenseKey cacheDir started.disk).filter isUrl
  | .loadFromUrl _ url _ => some url

/-- The database that a call returns, with its metadata, is from the URL that it was asked for. -/
def Isolated (world : World C) (call : Call) : Prop :=
  ∀ url, call.asksFor cacheDir world = some url →
    match call with
    | .initGeoip geoipPath licenseKey files city asn =>
        let outcome :=
          initGeoip U city asn geoipPath licenseKey cacheDir (world.among cacheDir files)
        ∀ metadata, outcome.1 = .ok (some metadata) →
          ∃ reader, outcome.2.cityReader = some (reader, metadata) ∧
            FromSource (call.started cacheDir world).now url outcome.2.downloads (reader, metadata)
    | .loadFromUrl edition _ around =>
        let outcome :=
          loadFromUrl U around url cacheDir edition.dbName (world.wait around.starts)
        ∀ loaded, outcome.1 = .ok loaded →
          FromSource (call.started cacheDir world).now url outcome.2.downloads loaded

/-- A cached database that has not expired when a call looks at it is from this URL. -/
def CacheMatches (around : Surroundings) (url : String) (edition : Edition) (world : World C) :
    Prop :=
  ∀ metadata, loadMetadata C (geoipCachePaths cacheDir edition.dbName).2 world.disk = .ok metadata →
    Cache.cacheTtlExceeded (world.now + around.checks) metadata.lastUpdated cacheTtlSecs true =
      false →
    metadata.source = url

/-- The open database, when the call is answered with it, has not expired, and otherwise the cached
one is from the URL that the call asks for. -/
def SourceMatches (world : World C) (call : Call) : Prop :=
  ∀ url, call.asksFor cacheDir world = some url →
    let started := call.started cacheDir world
    match call with
    | .initGeoip _ _ _ city _ =>
        (∀ loaded, started.cityReader = some loaded → loaded.2.source = url →
          Cache.durationExceedsTtl (started.now - loaded.2.lastUpdated) cacheTtlSecs = false) ∧
        ((∀ loaded, started.cityReader = some loaded → loaded.2.source ≠ url) →
          CacheMatches cacheDir city url .city started)
    | .loadFromUrl edition _ around =>
        CacheMatches cacheDir around url edition started

/-! ## Where the databases are from -/

/-- The cached files and the open City database are from downloads. Each of them is kept with the
metadata of its own download. -/
structure FromDownloads (world : World C) : Prop where
  cached : ∀ (edition : Edition) (metadata : GeoIpMetadata),
    loadMetadata C (geoipCachePaths cacheDir edition.dbName).2 world.disk = .ok metadata →
    ∃ download ∈ world.downloads, download.time ≤ world.now ∧ ∃ reader dbBytes,
      world.disk.read (geoipCachePaths cacheDir edition.dbName).1 = some dbBytes ∧
      C.fromSource dbBytes = .ok reader ∧ download.Gives (reader, metadata)
  opened : ∀ loaded : Loaded C, world.cityReader = some loaded → isUrl loaded.2.source = true →
    ∃ download ∈ world.downloads, download.time ≤ world.now ∧ download.Gives loaded

section Paths

variable {cacheDir}

/-- The names of the cache files are no absolute paths. -/
theorem cacheNames_relative (edition : Edition) :
    Text.startsWith (edition.dbName ++ ".mmdb") "/" = false ∧
      Text.startsWith (Text.toAsciiLowercase edition.dbName ++ "_metadata.json") "/" = false := by
  cases edition <;> decide +kernel

/-- A database file is never a metadata file. -/
theorem cacheFile_ne_metadataFile (left right : Edition) :
    (geoipCachePaths cacheDir left.dbName).1 ≠ (geoipCachePaths cacheDir right.dbName).2 := by
  intro h
  simp only [geoipCachePaths] at h
  have hnames := UnixPath.join_inj (cacheNames_relative left).1 (cacheNames_relative right).2 h
  cases left <;> cases right <;> exact absurd hnames (by decide +kernel)

/-- The editions have different database files. -/
theorem cacheFile_inj {left right : Edition} (h : (geoipCachePaths cacheDir left.dbName).1 =
    (geoipCachePaths cacheDir right.dbName).1) : left = right := by
  simp only [geoipCachePaths] at h
  have hnames := UnixPath.join_inj (cacheNames_relative left).1 (cacheNames_relative right).1 h
  cases left <;> cases right <;> first | rfl | exact absurd hnames (by decide +kernel)

/-- The editions have different metadata files. -/
theorem metadataFile_inj {left right : Edition} (h : (geoipCachePaths cacheDir left.dbName).2 =
    (geoipCachePaths cacheDir right.dbName).2) : left = right := by
  simp only [geoipCachePaths] at h
  have hnames := UnixPath.join_inj (cacheNames_relative left).2 (cacheNames_relative right).2 h
  cases left <;> cases right <;> first | rfl | exact absurd hnames (by decide +kernel)

end Paths

variable {cacheDir}

/-- Where the databases are from does not depend on other files, on the ASN database and on the
time, and more downloads do not matter. -/
theorem FromDownloads.keep {world after : World C} (h : FromDownloads cacheDir world)
    (hdisk : ∀ path, IsCachePath cacheDir path → after.disk path = world.disk path)
    (hcity : after.cityReader = world.cityReader) (hnow : world.now ≤ after.now)
    (hdownloads : world.downloads ⊆ after.downloads) : FromDownloads cacheDir after where
  cached edition metadata hmetadata := by
    have hread : ∀ path, IsCachePath cacheDir path → after.disk.read path = world.disk.read path :=
      fun path hpath => by rw [Disk.read, Disk.read, hdisk path hpath]
    rw [loadMetadata_of_read (hread _ ⟨edition, .inr rfl⟩)] at hmetadata
    obtain ⟨download, hdownload, htime, reader, dbBytes, hbytes, hsource, hgives⟩ :=
      h.cached edition metadata hmetadata
    exact ⟨download, hdownloads hdownload, by omega, reader, dbBytes,
      (hread _ ⟨edition, .inl rfl⟩).trans hbytes, hsource, hgives⟩
  opened loaded hloaded hurl := by
    obtain ⟨download, hdownload, htime, hgives⟩ := h.opened loaded (hcity ▸ hloaded) hurl
    exact ⟨download, hdownloads hdownload, by omega, hgives⟩

/-- Time does not change where the files come from. -/
theorem FromDownloads.wait {world : World C} (h : FromDownloads cacheDir world) (time : ℕ) :
    FromDownloads cacheDir (world.wait time) :=
  h.keep (fun _ _ => rfl) rfl (Nat.le_add_right _ _) fun _ hdownload => hdownload

/-- Other files do not change where the cached ones come from. -/
theorem FromDownloads.among {world : World C} (h : FromDownloads cacheDir world) (files : Disk) :
    FromDownloads cacheDir (world.among cacheDir files) :=
  h.keep (fun _ hpath => if_pos hpath) rfl le_rfl fun _ hdownload => hdownload

/-- A cached database that has not expired is there and can be opened. -/
theorem FromDownloads.usable {world : World C} (h : FromDownloads cacheDir world)
    {edition : Edition} {metadata : GeoIpMetadata} {now : ℕ}
    (hmetadata : loadMetadata C (geoipCachePaths cacheDir edition.dbName).2 world.disk =
      .ok metadata)
    (hfresh : Cache.cacheTtlExceeded now metadata.lastUpdated cacheTtlSecs true = false) :
    ∃ reader, tryLoadFromCache C now (geoipCachePaths cacheDir edition.dbName).1
      (geoipCachePaths cacheDir edition.dbName).2 world.disk = some (reader, metadata) := by
  obtain ⟨-, -, -, reader, dbBytes, hbytes, hsource, -⟩ := h.cached edition metadata hmetadata
  exact ⟨reader, tryLoadFromCache_eq_some_iff.mpr ⟨hmetadata, hfresh, dbBytes, hbytes, hsource⟩⟩

/-- A database from the cache is from a download, and is not older than its metadata says. -/
theorem FromDownloads.of_cache {world : World C} (h : FromDownloads cacheDir world)
    {edition : Edition} {loaded : Loaded C} {now : ℕ}
    (hcached : tryLoadFromCache C now (geoipCachePaths cacheDir edition.dbName).1
      (geoipCachePaths cacheDir edition.dbName).2 world.disk = some loaded) :
    ∃ download ∈ world.downloads, download.time ≤ world.now ∧ download.Gives loaded := by
  obtain ⟨hmetadata, -, dbBytes, hbytes, hsource⟩ := tryLoadFromCache_eq_some_iff.mp hcached
  obtain ⟨download, hdownload, htime, reader, otherBytes, hother, hopen, hgives⟩ :=
    h.cached edition loaded.2 hmetadata
  rw [hbytes, Option.some.injEq] at hother
  rw [← hother, hsource, Except.ok.injEq] at hopen
  subst hopen
  exact ⟨download, hdownload, htime, hgives⟩

/-- The files after a download: the new ones, and the others of before. -/
theorem FromDownloads.saved {world : World C} (h : FromDownloads cacheDir world)
    (edition : Edition) {download : Download} {loaded : Loaded C} {dbBytes : ByteArray}
    (htime : world.now ≤ download.time) (hgives : download.Gives loaded)
    (hsource : C.fromSource dbBytes = .ok loaded.1) :
    FromDownloads cacheDir
      { world with
        disk := saveMetadata C loaded.2 (geoipCachePaths cacheDir edition.dbName).2
          (world.disk.writeAtomic (geoipCachePaths cacheDir edition.dbName).1 dbBytes)
        now := download.time
        downloads := world.downloads ++ [download] } where
  cached other metadata hmetadata := by
    dsimp only at hmetadata ⊢
    by_cases hother : other = edition
    · subst hother
      rw [loadMetadata_saveMetadata, Except.ok.injEq] at hmetadata
      refine ⟨download, by simp, le_rfl, loaded.1, dbBytes, ?_, hsource, hmetadata ▸ hgives⟩
      rw [read_saveMetadata_of_ne (cacheFile_ne_metadataFile other other), read_writeAtomic]
    · -- The files of the other edition are the ones of before.
      have hkept : ∀ path, path ≠ (geoipCachePaths cacheDir edition.dbName).1 →
          path ≠ (geoipCachePaths cacheDir edition.dbName).2 →
          (saveMetadata C loaded.2 (geoipCachePaths cacheDir edition.dbName).2
              (world.disk.writeAtomic (geoipCachePaths cacheDir edition.dbName).1 dbBytes)).read
            path = world.disk.read path := by
        intro path hcache hfile
        rw [read_saveMetadata_of_ne hfile, read_writeAtomic_of_ne hcache]
      have hmetadataFile := hkept (geoipCachePaths cacheDir other.dbName).2
        (cacheFile_ne_metadataFile edition other).symm (fun heq => hother (metadataFile_inj heq))
      have hcacheFile := hkept (geoipCachePaths cacheDir other.dbName).1
        (fun heq => hother (cacheFile_inj heq)) (cacheFile_ne_metadataFile other edition)
      rw [loadMetadata_of_read hmetadataFile] at hmetadata
      obtain ⟨found, hfound, hbefore, reader, bytes, hread, hopen, hfrom⟩ :=
        h.cached other metadata hmetadata
      exact ⟨found, List.mem_append_left _ hfound, by omega, reader, bytes,
        hcacheFile.trans hread, hopen, hfrom⟩
  opened found hfound hurl := by
    obtain ⟨earlier, hearlier, hbefore, hfrom⟩ := h.opened found hfound hurl
    exact ⟨earlier, List.mem_append_left _ hearlier, hbefore.trans htime, hfrom⟩

/-! ## What the calls keep -/

/-- What does not concern the City database: it stays open, the databases are still from downloads,
and the clock and the downloads go on. -/
structure Keeps (cacheDir : String) (world after : World C) : Prop where
  fromDownloads : FromDownloads cacheDir world → FromDownloads cacheDir after
  city : after.cityReader = world.cityReader
  downloads : world.downloads ⊆ after.downloads

/-- Doing nothing keeps the origin. -/
theorem Keeps.refl (cacheDir : String) (world : World C) : Keeps cacheDir world world :=
  ⟨id, rfl, fun _ hdownload => hdownload⟩

/-- Two steps that keep the origin keep it together. -/
theorem Keeps.trans {first second third : World C} (h : Keeps cacheDir first second)
    (hnext : Keeps cacheDir second third) : Keeps cacheDir first third where
  fromDownloads hfirst := hnext.fromDownloads (h.fromDownloads hfirst)
  city := hnext.city.trans h.city
  downloads := List.Subset.trans h.downloads hnext.downloads

/-- Waiting keeps the origin. -/
theorem Keeps.wait (cacheDir : String) (world : World C) (time : ℕ) :
    Keeps cacheDir world (world.wait time) :=
  ⟨fun h => h.wait time, rfl, fun _ hdownload => hdownload⟩

/-- Setting the reader keeps the origin. -/
theorem Keeps.asnReader (cacheDir : String) (world : World C) (reader : Option (Loaded C)) :
    Keeps cacheDir world { world with asnReader := reader } :=
  ⟨fun h => h.keep (fun _ _ => rfl) rfl le_rfl fun _ hdownload => hdownload, rfl,
    fun _ hdownload => hdownload⟩

variable {U}

/-- A download keeps the origin. -/
theorem loadFromUrl_keeps (around : Surroundings) (url : String) (edition : Edition)
    (world : World C) :
    Keeps cacheDir world (loadFromUrl U around url cacheDir edition.dbName world).2 := by
  rcases loadFromUrl_cases U around url cacheDir edition.dbName world with
    ⟨loaded, -, hload⟩ | ⟨-, ⟨message, time, failed, hload⟩ |
      ⟨download, loaded, dbBytes, -, htime, hgives, hsource, hload⟩⟩
  · rw [hload]
    exact Keeps.wait cacheDir world around.checks
  · rw [hload]
    have hmore : world.downloads ⊆ world.downloads ++ failed := List.subset_append_left _ _
    exact ⟨fun h => h.keep (fun _ _ => rfl) rfl (Nat.le_add_right _ _) hmore, rfl, hmore⟩
  · rw [hload]
    exact ⟨fun h => h.saved edition (by omega) hgives hsource, rfl, List.subset_append_left _ _⟩

/-- A load returns a database that is from a download. -/
theorem loadFromUrl_gives {around : Surroundings} {url : String} {edition : Edition}
    {world : World C} (h : FromDownloads cacheDir world) {loaded : Loaded C}
    (hloaded : (loadFromUrl U around url cacheDir edition.dbName world).1 = .ok loaded) :
    ∃ download ∈ (loadFromUrl U around url cacheDir edition.dbName world).2.downloads,
      download.time ≤ (loadFromUrl U around url cacheDir edition.dbName world).2.now ∧
      download.Gives loaded := by
  rcases loadFromUrl_cases U around url cacheDir edition.dbName world with
    ⟨found, hcached, hload⟩ | ⟨-, ⟨message, time, failed, hload⟩ |
      ⟨download, found, dbBytes, -, htime, hgives, hsource, hload⟩⟩
  · rw [hload] at hloaded ⊢
    cases hloaded
    obtain ⟨download, hdownload, htime, hgives⟩ := h.of_cache hcached
    exact ⟨download, hdownload, htime.trans (Nat.le_add_right _ _), hgives⟩
  · rw [hload] at hloaded
    cases hloaded
  · rw [hload] at hloaded ⊢
    cases hloaded
    exact ⟨download, by simp, le_rfl, hgives⟩

/-- Loading the second database from the cache keeps the origin. -/
theorem tryLoadAsnFromCache_keeps (around : Surroundings) (world : World C) :
    Keeps cacheDir world (tryLoadAsnFromCache around cacheDir world) := by
  have hwaited := Keeps.wait cacheDir world around.checks
  simp only [tryLoadAsnFromCache]
  split
  · split
    · exact hwaited.trans (Keeps.asnReader cacheDir _ _)
    · exact hwaited
  · exact Keeps.refl cacheDir world

/-- The second database is set up without touching the first one's origin. -/
theorem initAsnDatabase_keeps (around : Surroundings) (licenseKey : Option String)
    (cacheDir : String) (world : World C) :
    Keeps cacheDir world (initAsnDatabase U around licenseKey cacheDir world) := by
  have hstarted := Keeps.wait cacheDir world around.starts
  have hcache := hstarted.trans (tryLoadAsnFromCache_keeps around (world.wait around.starts))
  simp only [initAsnDatabase]
  split
  · exact Keeps.refl cacheDir world
  · cases heq : Option.filter (fun key => decide (key ≠ "")) licenseKey with
    | none => exact hcache
    | some key =>
        dsimp only
        split
        · have hload := hstarted.trans (loadFromUrl_keeps (U := U) around
            (maxmindDownloadUrl C "GeoLite2-ASN" key) .asn (world.wait around.starts))
          split
          next loaded after heq =>
            exact (heq ▸ hload).trans (Keeps.asnReader cacheDir after (some loaded))
          next message after heq =>
            exact (heq ▸ hload).trans (tryLoadAsnFromCache_keeps around after)
        · exact hcache

/-- A call that finds the database of its path open. -/
theorem initGeoip_of_open {world : World C} {city asn : Surroundings}
    {geoipPath licenseKey : Option String} {path : String} {loaded : Loaded C}
    (hpath : resolveGeoipSource C (world.wait city.starts).now geoipPath licenseKey cacheDir
      world.disk = some path)
    (hopen : world.cityReader = some loaded) (hsource : loaded.2.source = path) :
    initGeoip U city asn geoipPath licenseKey cacheDir world =
      (.ok (some loaded.2),
        initAsnDatabase U asn licenseKey cacheDir (world.wait city.starts)) := by
  have hstarted : (world.wait city.starts).cityReader = some loaded := hopen
  have hdisk : (world.wait city.starts).disk = world.disk := rfl
  simp only [initGeoip, hdisk, hpath, hstarted, hsource, ne_eq, not_true_eq_false, decide_false,
    Bool.false_eq_true, if_false]

/-- A call that does not find the database of its path open. -/
theorem initGeoip_of_closed {world : World C} {city asn : Surroundings}
    {geoipPath licenseKey : Option String} {path : String}
    (hpath : resolveGeoipSource C (world.wait city.starts).now geoipPath licenseKey cacheDir
      world.disk = some path)
    (hclosed : ∀ loaded, world.cityReader = some loaded → loaded.2.source ≠ path) :
    initGeoip U city asn geoipPath licenseKey cacheDir world =
      match loadCity U city path cacheDir (world.wait city.starts) with
      | (.error message, after) => (.error message, after)
      | (.ok metadata, after) =>
          (.ok (some metadata), initAsnDatabase U asn licenseKey cacheDir after) := by
  have hdisk : (world.wait city.starts).disk = world.disk := rfl
  have hreader : (world.wait city.starts).cityReader = world.cityReader := rfl
  cases hopen : world.cityReader with
  | none =>
      simp only [initGeoip, hdisk, hpath, hreader, hopen, if_true]
      rcases loadCity U city path cacheDir (world.wait city.starts) with ⟨_ | _, after⟩ <;> rfl
  | some loaded =>
      simp only [initGeoip, hdisk, hpath, hreader, hopen, ne_eq, hclosed loaded hopen,
        not_false_eq_true, decide_true, if_true]
      rcases loadCity U city path cacheDir (world.wait city.starts) with ⟨_ | _, after⟩ <;> rfl

/-- The City database is opened from a URL. -/
theorem loadCity_of_url {around : Surroundings} {url : String} (hurl : isUrl url = true)
    (world : World C) :
    loadCity U around url cacheDir world =
      match loadFromUrl U around url cacheDir Edition.city.dbName world with
      | (.ok loaded, after) => (.ok loaded.2, { after with cityReader := some loaded })
      | (.error message, after) => (.error message, after) := by
  simp only [loadCity, hurl, if_true, Edition.dbName]
  rcases loadFromUrl U around url cacheDir "GeoLite2-City" world with ⟨_ | _, after⟩ <;> rfl

/-- Loading the first database keeps where the files come from. -/
theorem FromDownloads.loadCity {world : World C} (h : FromDownloads cacheDir world)
    (around : Surroundings) (path : String) :
    FromDownloads cacheDir (loadCity U around path cacheDir world).2 := by
  by_cases hurl : isUrl path = true
  · have hkeeps : Keeps cacheDir world
        (loadFromUrl U around path cacheDir Edition.city.dbName world).2 :=
      loadFromUrl_keeps around path .city world
    rw [loadCity_of_url hurl]
    match heq : loadFromUrl U around path cacheDir Edition.city.dbName world with
    | (.ok loaded, after) =>
        have hloaded : (loadFromUrl U around path cacheDir Edition.city.dbName world).1 =
            .ok loaded := by rw [heq]
        have hgives := loadFromUrl_gives h hloaded
        rw [heq] at hkeeps hgives
        have hafter := hkeeps.fromDownloads h
        refine ⟨hafter.cached, fun found hfound _ => ?_⟩
        cases hfound
        exact hgives
    | (.error message, after) =>
        rw [heq] at hkeeps
        exact hkeeps.fromDownloads h
  · -- The source of a local file is no URL.
    have hwaited := h.wait around.checks
    simp only [Geoip.loadCity, hurl, Bool.false_eq_true, if_false]
    split
    next reader metadata heq =>
      have hsource : metadata.source = path := by
        unfold loadFromFile at heq
        split at heq
        · cases heq
        · split at heq
          · cases heq
          · cases heq
            rfl
      refine ⟨hwaited.cached, fun found hfound hfoundUrl => ?_⟩
      cases hfound
      exact absurd (hsource ▸ hfoundUrl) hurl
    · exact hwaited

/-- Every call keeps where the databases are from. -/
theorem FromDownloads.initGeoip {world : World C} (h : FromDownloads cacheDir world)
    (city asn : Surroundings) (geoipPath licenseKey : Option String) :
    FromDownloads cacheDir (initGeoip U city asn geoipPath licenseKey cacheDir world).2 := by
  have hstarted := h.wait city.starts
  cases hpath : resolveGeoipSource C (world.wait city.starts).now geoipPath licenseKey cacheDir
      world.disk with
  | none =>
      have hnone : Geoip.initGeoip U city asn geoipPath licenseKey cacheDir world =
          (.ok none, world.wait city.starts) := by
        have hdisk : (world.wait city.starts).disk = world.disk := rfl
        simp only [Geoip.initGeoip, hdisk, hpath]
      rw [hnone]
      exact hstarted
  | some path =>
      by_cases hopen : ∃ loaded, world.cityReader = some loaded ∧ loaded.2.source = path
      · obtain ⟨loaded, hopen, hsource⟩ := hopen
        rw [initGeoip_of_open hpath hopen hsource]
        exact (initAsnDatabase_keeps asn licenseKey cacheDir _).fromDownloads hstarted
      · have hclosed : ∀ loaded, world.cityReader = some loaded → loaded.2.source ≠ path :=
          fun loaded hloaded hsource => hopen ⟨loaded, hloaded, hsource⟩
        have hload := hstarted.loadCity (U := U) city path
        rw [initGeoip_of_closed hpath hclosed]
        match heq : Geoip.loadCity U city path cacheDir (world.wait city.starts) with
        | (.error message, after) =>
            rw [heq] at hload
            exact hload
        | (.ok metadata, after) =>
            rw [heq] at hload
            exact (initAsnDatabase_keeps asn licenseKey cacheDir after).fromDownloads hload

/-- A call keeps where the files come from. -/
theorem step_fromDownloads {world next : World C} {call : Call} (h : FromDownloads cacheDir world)
    (hstep : step U cacheDir world call = some next) : FromDownloads cacheDir next := by
  cases call with
  | initGeoip geoipPath licenseKey files city asn =>
      cases hstep
      exact (h.among files).initGeoip city asn geoipPath licenseKey
  | loadFromUrl edition url around =>
      cases hstep
      exact (loadFromUrl_keeps around url edition _).fromDownloads (h.wait around.starts)

/-! ## Which calls are isolated -/

/-- What comes from a source names it. -/
theorem FromSource.source_eq {start : ℕ} {url : String} {downloads : List Download}
    {loaded : Loaded C} (h : FromSource start url downloads loaded) : loaded.2.source = url := by
  obtain ⟨download, -, hurl, ⟨-, hmetadata⟩, -⟩ := h
  rw [hmetadata, ← hurl]
  rfl

/-- More downloads do not change where a database comes from. -/
theorem FromSource.mono {start : ℕ} {url : String} {downloads more : List Download}
    {loaded : Loaded C} (h : FromSource start url downloads loaded)
    (hmore : downloads ⊆ more) : FromSource start url more loaded := by
  obtain ⟨download, hdownload, hrest⟩ := h
  exact ⟨download, hmore hdownload, hrest⟩

/-- A download that the metadata is from. -/
theorem FromSource.of_gives {start : ℕ} {downloads : List Download} {download : Download}
    {loaded : Loaded C} (hdownload : download ∈ downloads) (hgives : download.Gives loaded)
    (hfresh : Cache.durationExceedsTtl (start - loaded.2.lastUpdated) cacheTtlSecs = false) :
    FromSource start loaded.2.source downloads loaded := by
  refine ⟨download, hdownload, ?_, hgives, ?_⟩
  · rw [hgives.2]
    rfl
  · rw [hgives.2] at hfresh
    exact hfresh

/-- The age of the metadata of an isolated result. -/
theorem FromSource.fresh {start : ℕ} {url : String} {downloads : List Download}
    {loaded : Loaded C} (h : FromSource start url downloads loaded) :
    Cache.durationExceedsTtl (start - loaded.2.lastUpdated) cacheTtlSecs = false := by
  obtain ⟨download, -, -, ⟨-, hmetadata⟩, hfresh⟩ := h
  rw [hmetadata]
  exact hfresh

/-- What is fresh later is fresh now. -/
theorem fresh_of_later {start waited time : ℕ}
    (h : Cache.cacheTtlExceeded (start + waited) time cacheTtlSecs true = false) :
    Cache.durationExceedsTtl (start - time) cacheTtlSecs = false := by
  unfold Cache.cacheTtlExceeded at h
  split at h
  · simp only [Cache.durationExceedsTtl, decide_eq_false_iff_not, not_le] at h ⊢
    have hage : (start - time) / 10 ^ 9 ≤ (start + waited - time) / 10 ^ 9 :=
      Nat.div_le_div_right (by omega)
    omega
  · cases h

/-- A load is isolated when the cached database is from its URL. -/
theorem loadFromUrl_fromSource {world : World C} (h : FromDownloads cacheDir world)
    {around : Surroundings} {url : String} {edition : Edition}
    (hmatches : CacheMatches cacheDir around url edition world) {loaded : Loaded C}
    (hloaded : (loadFromUrl U around url cacheDir edition.dbName world).1 = .ok loaded) :
    FromSource world.now url
      (loadFromUrl U around url cacheDir edition.dbName world).2.downloads loaded := by
  rcases loadFromUrl_cases U around url cacheDir edition.dbName world with
    ⟨found, hcached, hload⟩ | ⟨-, ⟨message, time, failed, hload⟩ |
      ⟨download, found, dbBytes, hurl, htime, hgives, -, hload⟩⟩
  · rw [hload] at hloaded ⊢
    cases hloaded
    obtain ⟨hmetadata, hfresh, -⟩ := tryLoadFromCache_eq_some_iff.mp hcached
    obtain ⟨download, hdownload, -, hgives⟩ := h.of_cache hcached
    rw [← hmatches loaded.2 hmetadata hfresh]
    exact FromSource.of_gives hdownload hgives (fresh_of_later hfresh)
  · rw [hload] at hloaded
    cases hloaded
  · rw [hload] at hloaded ⊢
    cases hloaded
    refine ⟨download, by simp, hurl, hgives, ?_⟩
    rw [Nat.sub_eq_zero_of_le (by omega)]
    decide

/-- When every database that a load may return is from its URL, the cached one is. -/
theorem cacheMatches_of_source {world : World C} (h : FromDownloads cacheDir world)
    {around : Surroundings} {url : String} {edition : Edition}
    (hsource : ∀ loaded, (loadFromUrl U around url cacheDir edition.dbName world).1 = .ok loaded →
      loaded.2.source = url) : CacheMatches cacheDir around url edition world := by
  intro metadata hmetadata hfresh
  obtain ⟨reader, hcached⟩ := h.usable hmetadata hfresh
  rcases loadFromUrl_cases U around url cacheDir edition.dbName world with
    ⟨found, hfound, hload⟩ | ⟨hnone, -⟩
  · rw [hcached, Option.some.injEq] at hfound
    subst hfound
    exact hsource (reader, metadata) (by rw [hload])
  · rw [hcached] at hnone
    cases hnone

/-- A call of `load_from_url` is isolated exactly when the cached database is from its URL. -/
theorem isolated_loadFromUrl_iff {world : World C} (h : FromDownloads cacheDir world)
    {edition : Edition} {url : String} {around : Surroundings} :
    Isolated U cacheDir world (.loadFromUrl edition url around) ↔
      SourceMatches cacheDir world (.loadFromUrl edition url around) := by
  have hstarted := h.wait around.starts
  constructor
  · intro hisolated asked hasked
    cases hasked
    exact cacheMatches_of_source hstarted fun loaded hloaded =>
      (hisolated url rfl loaded hloaded).source_eq
  · intro hmatches asked hasked loaded hloaded
    cases hasked
    exact loadFromUrl_fromSource hstarted (hmatches url rfl) hloaded

section InitGeoip

variable {world : World C} {geoipPath licenseKey : Option String} {files : Disk}
  {city asn : Surroundings} {url : String}

/-- A call of `init_geoip` that finds the database of its URL open is isolated exactly when that has
not expired. -/
theorem isolated_open_iff (h : FromDownloads cacheDir world) {loaded : Loaded C}
    (hpath : resolveGeoipSource C (world.wait city.starts).now geoipPath licenseKey cacheDir
      world.disk = some loaded.2.source)
    (hurl : isUrl loaded.2.source = true) (hopen : world.cityReader = some loaded) :
    (∀ metadata, (initGeoip U city asn geoipPath licenseKey cacheDir world).1 =
        .ok (some metadata) →
      ∃ reader, (initGeoip U city asn geoipPath licenseKey cacheDir world).2.cityReader =
          some (reader, metadata) ∧
        FromSource (world.wait city.starts).now loaded.2.source
          (initGeoip U city asn geoipPath licenseKey cacheDir world).2.downloads
          (reader, metadata)) ↔
      Cache.durationExceedsTtl ((world.wait city.starts).now - loaded.2.lastUpdated) cacheTtlSecs =
        false := by
  have hkeeps := initAsnDatabase_keeps (U := U) asn licenseKey cacheDir
    (world.wait city.starts)
  rw [initGeoip_of_open hpath hopen rfl]
  constructor
  · intro hisolated
    obtain ⟨reader, -, hsource⟩ := hisolated loaded.2 rfl
    exact hsource.fresh
  · intro hfresh metadata hmetadata
    cases hmetadata
    obtain ⟨download, hdownload, -, hgives⟩ := h.opened loaded hopen hurl
    exact ⟨loaded.1, hkeeps.city.trans hopen,
      (FromSource.of_gives hdownload hgives hfresh).mono hkeeps.downloads⟩

/-- A call of `init_geoip` that does not is isolated exactly when the cached database is from its
URL. -/
theorem isolated_closed_iff (h : FromDownloads cacheDir world)
    (hpath : resolveGeoipSource C (world.wait city.starts).now geoipPath licenseKey cacheDir
      world.disk = some url)
    (hurl : isUrl url = true)
    (hclosed : ∀ loaded, world.cityReader = some loaded → loaded.2.source ≠ url) :
    (∀ metadata, (initGeoip U city asn geoipPath licenseKey cacheDir world).1 =
        .ok (some metadata) →
      ∃ reader, (initGeoip U city asn geoipPath licenseKey cacheDir world).2.cityReader =
          some (reader, metadata) ∧
        FromSource (world.wait city.starts).now url
          (initGeoip U city asn geoipPath licenseKey cacheDir world).2.downloads
          (reader, metadata)) ↔
      CacheMatches cacheDir city url .city (world.wait city.starts) := by
  have hstarted := h.wait city.starts
  rw [initGeoip_of_closed hpath hclosed, loadCity_of_url hurl]
  rcases hload : loadFromUrl U city url cacheDir Edition.city.dbName (world.wait city.starts) with
    ⟨message | loaded, after⟩
  · -- Nothing is returned, so there is no cached database that could have been.
    refine iff_of_true (fun metadata hmetadata => by cases hmetadata) ?_
    refine cacheMatches_of_source (U := U) hstarted fun loaded hloaded => ?_
    rw [hload] at hloaded
    cases hloaded
  · have hkeeps := initAsnDatabase_keeps (U := U) asn licenseKey cacheDir
      { after with cityReader := some loaded }
    constructor
    · intro hisolated
      refine cacheMatches_of_source (U := U) hstarted fun found hfound => ?_
      rw [hload] at hfound
      cases hfound
      obtain ⟨reader, -, hsource⟩ := hisolated loaded.2 rfl
      exact hsource.source_eq
    · intro hmatches metadata hmetadata
      cases hmetadata
      have hloaded : (loadFromUrl U city url cacheDir Edition.city.dbName
          (world.wait city.starts)).1 = .ok loaded := by rw [hload]
      have hsource := loadFromUrl_fromSource hstarted hmatches hloaded
      rw [hload] at hsource
      exact ⟨loaded.1, hkeeps.city, hsource.mono hkeeps.downloads⟩

/-- A call of `init_geoip` is isolated exactly when it meets the condition. -/
theorem isolated_initGeoip_iff (h : FromDownloads cacheDir world) :
    Isolated U cacheDir world (.initGeoip geoipPath licenseKey files city asn) ↔
      SourceMatches cacheDir world (.initGeoip geoipPath licenseKey files city asn) := by
  refine forall_congr' fun url => forall_congr' fun hasked => ?_
  obtain ⟨hpath, hurl⟩ := Option.filter_eq_some_iff.mp hasked
  by_cases hopen : ∃ loaded, world.cityReader = some loaded ∧ loaded.2.source = url
  · obtain ⟨loaded, hreader, rfl⟩ := hopen
    refine (isolated_open_iff (h.among files) hpath hurl hreader).trans ?_
    constructor
    · intro hfresh
      refine ⟨fun found hfound _ => ?_, fun hclosed => absurd rfl (hclosed loaded hreader)⟩
      cases hreader.symm.trans hfound
      exact hfresh
    · intro hmatches
      exact hmatches.1 loaded hreader rfl
  · have hclosed : ∀ loaded, world.cityReader = some loaded → loaded.2.source ≠ url :=
      fun loaded hloaded hsource => hopen ⟨loaded, hloaded, hsource⟩
    refine (isolated_closed_iff (h.among files) hpath hurl hclosed).trans ?_
    constructor
    · intro hmatches
      exact ⟨fun found hfound hsource => absurd hsource (hclosed found hfound), fun _ => hmatches⟩
    · intro hmatches
      exact hmatches.2 hclosed

end InitGeoip

/-- At first nothing is cached. -/
theorem fromDownloads_init : FromDownloads cacheDir (World.init : World C) where
  cached _ _ hmetadata := by cases hmetadata
  opened _ hopen := by cases hopen

/-- Every call of a run returns a database of the URL that it was asked for exactly when every call
finds a cached database from there or none, and is not answered with an open one that has
expired. -/
theorem geoip_isolated_iff (calls : List Call) :
    Trace.Along (step U cacheDir) (Isolated U cacheDir) (World.init : World C) calls ↔
      Trace.Along (step U cacheDir) (SourceMatches cacheDir) (World.init : World C) calls := by
  have hkept : ∀ (world : World C) (call : Call) (next : World C), FromDownloads cacheDir world →
      step U cacheDir world call = some next → FromDownloads cacheDir next :=
    fun _ _ _ h hstep => step_fromDownloads h hstep
  refine Trace.along_congr hkept (fun world call h => ?_) fromDownloads_init calls
  cases call with
  | initGeoip geoipPath licenseKey files city asn => exact isolated_initGeoip_iff h
  | loadFromUrl edition url around => exact isolated_loadFromUrl_iff h

/-- A network with one database, whatever the URL. -/
def exampleSurroundings : Surroundings :=
  { starts := 0, checks := 0, downloads := 0, network := fun _ => .ok ByteArray.empty }

/-- The crates with databases that are their own bytes. -/
def exampleGeoipCrates (metadata : Codec GeoIpMetadata) : GeoipCrates where
  Reader := ByteArray
  fromSource := .ok
  buildEpoch _ := 0
  entries _ := .error "invalid gzip header"
  byteSerialize := id
  metadata := metadata

/-- There is a codec for the metadata. -/
theorem geoIpMetadata_codec : Nonempty (Codec GeoIpMetadata) := by
  have hmetadata : Countable GeoIpMetadata :=
    Function.Injective.countable
      (f := fun metadata : GeoIpMetadata =>
        (metadata.source, metadata.version, metadata.lastUpdated))
      fun left right h => by cases left; cases right; simpa using h
  obtain ⟨codec, -⟩ := Codec.exists_encode_eq
    ({ source := "", version := "", lastUpdated := 0 } : GeoIpMetadata) "\x7b\x7d"
  exact ⟨codec⟩

/-- A load for another URL at the same moment gets the database of the first one. -/
theorem geoip_not_isolated :
    ¬ ∀ (C : GeoipCrates) (U : UrlCrate) (cacheDir : String) (calls : List Call),
      Trace.Along (step U cacheDir) (Isolated U cacheDir) (World.init : World C) calls := by
  intro h
  obtain ⟨codec⟩ := geoIpMetadata_codec
  let C := exampleGeoipCrates codec
  let first := "https://example.com/a.mmdb"
  let load (url : String) : Call := .loadFromUrl .city url exampleSurroundings
  have hsafe : validateUrlSafe exampleUrlCrate first = .ok () := by decide +kernel
  have hunpack : unpack C ByteArray.empty first "GeoLite2-City" = .ok ByteArray.empty := by
    unfold unpack
    rw [if_neg (by decide +kernel), if_pos (by decide +kernel)]
  let metadata := extractMetadata C 0 ByteArray.empty first
  have hopen : processDownloadedGeoip C 0 ByteArray.empty first "GeoLite2-City"
      (geoipCachePaths "/cache" "GeoLite2-City").1 (geoipCachePaths "/cache" "GeoLite2-City").2
      (fun _ => none) = .ok ((ByteArray.empty, metadata), _) :=
    processDownloadedGeoip_ok_iff.mpr ⟨ByteArray.empty, hunpack, rfl, rfl, rfl⟩
  obtain ⟨-, hrest⟩ := h C exampleUrlCrate "/cache" [load first, load "https://example.com/b.mmdb"]
  have hstep : step exampleUrlCrate "/cache" (World.init : World C) (load first) =
      some { World.init with
        disk := saveMetadata C metadata (geoipCachePaths "/cache" "GeoLite2-City").2
          (Disk.writeAtomic (fun _ => none) (geoipCachePaths "/cache" "GeoLite2-City").1
            ByteArray.empty)
        downloads := [{ url := first, dbName := "GeoLite2-City", bytes := ByteArray.empty,
                        time := 0 }] } := by
    have hcached : tryLoadFromCache C 0 (geoipCachePaths "/cache" "GeoLite2-City").1
        (geoipCachePaths "/cache" "GeoLite2-City").2 (fun _ => none) = none := rfl
    simp only [step, load, loadFromUrl, World.wait, World.init, exampleSurroundings,
      Edition.dbName, Nat.add_zero, hcached, hsafe, hopen]
    rfl
  have hkept := step_fromDownloads fromDownloads_init hstep
  have hmatches := (isolated_loadFromUrl_iff hkept).mp (hrest _ hstep).1 _ rfl
  have hfresh : Cache.cacheTtlExceeded 0 0 cacheTtlSecs true = false := by decide
  have hsource : "https://example.com/a.mmdb" = "https://example.com/b.mmdb" :=
    hmatches metadata loadMetadata_saveMetadata hfresh
  exact absurd hsource (by decide)

end DomainStatus.Geoip
