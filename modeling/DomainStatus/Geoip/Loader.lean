import DomainStatus.Lib.Fallible
import DomainStatus.Lib.Serde
import DomainStatus.Lib.UnixPath
import DomainStatus.Security.UrlValidation
import DomainStatus.Utils.Cache

/-!
# Loading a database

The loaders of `src/geoip/init/loader.rs`, with what they use of `src/geoip/metadata.rs` and
`src/geoip/extract.rs`. A downloaded database is kept in two files of the cache directory, which
go by the name of the database. Read `tryLoadFromCache_eq_some_iff` and `loadFromUrl_cases` first.
The file system works: what is written is there.
-/

namespace DomainStatus.Geoip

open Security

/-- Metadata about a database. The time of the last update is in nanoseconds. -/
structure GeoIpMetadata where
  source : String
  version : String
  lastUpdated : ℕ
  deriving DecidableEq

/-- `CACHE_TTL_SECS`: seven days. -/
def cacheTtlSecs : ℕ :=
  7 * 24 * 60 * 60

/-- `MAX_GEOIP_ARCHIVE_ENTRY_COUNT`. -/
def maxGeoipArchiveEntryCount : ℕ :=
  128

/-- `MAX_GEOIP_ARCHIVE_ENTRY_SIZE`. -/
def maxGeoipArchiveEntrySize : ℕ :=
  100 * 1024 * 1024

/-- What is at a path of the file system. -/
inductive Node where
  | file (bytes : ByteArray)
  | directory

/-- The files and directories by their paths. -/
abbrev Disk :=
  String → Option Node

/-- `Path::exists`. -/
def Disk.has (disk : Disk) (path : String) : Bool :=
  (disk path).isSome

/-- Reads a whole file. -/
def Disk.read (disk : Disk) (path : String) : Option ByteArray :=
  match disk path with
  | some (.file bytes) => some bytes
  | _ => none

/-- `write_atomic`, which replaces a file. -/
def Disk.writeAtomic (disk : Disk) (path : String) (bytes : ByteArray) : Disk :=
  Function.update disk path (some (.file bytes))

/-- An entry of a `tar` archive. Reading it takes the number of bytes at which it stops. -/
structure TarEntry where
  path : Except String String
  size : ℕ
  read : ℕ → Except String ByteArray

/-- What the program uses of the crates `maxminddb`, `flate2`, `tar`, `url` and `serde_json`. -/
structure GeoipCrates where
  Reader : Type
  /-- `Reader::from_source`. -/
  fromSource : ByteArray → Except String Reader
  buildEpoch : Reader → ℕ
  /-- The entries of a `.tar.gz` archive, as far as it can be read. -/
  entries : ByteArray → Except String (List (Except String TarEntry))
  /-- `form_urlencoded::byte_serialize`. -/
  byteSerialize : String → String
  metadata : Codec GeoIpMetadata

variable (C : GeoipCrates)

/-- A database that is open, and its metadata. -/
abbrev Loaded :=
  C.Reader × GeoIpMetadata

/-! ## Archives -/

/-- Looks through the entries of an archive, from this one on, for the file of a database. -/
def findMmdb (dbName : String) : ℕ → List (Except String TarEntry) → Except String ByteArray
  | _, [] => .error (dbName ++ ".mmdb not found in tar.gz archive")
  | index, entryResult :: rest => do
      if maxGeoipArchiveEntryCount ≤ index then
        throw ("GeoIP archive exceeded entry inspection limit (max: " ++
          toString maxGeoipArchiveEntryCount ++ ")")
      let entry ← entryResult.mapError fun _ => "Failed to read tar entry"
      let path ← entry.path.mapError fun _ => "Failed to get entry path"
      if UnixPath.fileName path = some (dbName ++ ".mmdb") then
        if maxGeoipArchiveEntrySize < entry.size then
          throw (dbName ++ ".mmdb entry too large: " ++ toString entry.size ++ " bytes (max: " ++
            toString maxGeoipArchiveEntrySize ++ " bytes)")
        let mmdbBytes ← (entry.read (maxGeoipArchiveEntrySize + 1)).mapError fun _ =>
          "Failed to read " ++ dbName ++ ".mmdb file from archive"
        if maxGeoipArchiveEntrySize < mmdbBytes.size then
          throw (dbName ++ ".mmdb entry exceeded size limit while reading (max: " ++
            toString maxGeoipArchiveEntrySize ++ " bytes)")
        return mmdbBytes
      else findMmdb dbName (index + 1) rest

/-- The database in a `.tar.gz` archive. -/
def extractMmdbFromTarGz (tarGzBytes : ByteArray) (dbName : String) : Except String ByteArray := do
  let entries ← (C.entries tarGzBytes).mapError fun _ => "Failed to read tar archive entries"
  findMmdb dbName 0 entries

/-- The database in what was downloaded, which may be an archive. -/
def unpack (downloadedBytes : ByteArray) (url dbName : String) : Except String ByteArray :=
  if Text.endsWith url ".tar.gz" ∨ Text.contains url.toList "suffix=tar.gz".toList then
    extractMmdbFromTarGz C downloadedBytes dbName
  else if (UnixPath.extension url).any fun ext => Text.eqIgnoreAsciiCase ext "mmdb" then
    .ok downloadedBytes
  else if 2 < downloadedBytes.size ∧ downloadedBytes.data[0]? = some 0x1f ∧
      downloadedBytes.data[1]? = some 0x8b then
    extractMmdbFromTarGz C downloadedBytes dbName
  else .ok downloadedBytes

/-! ## Metadata -/

/-- The metadata of a database that was opened now. -/
def extractMetadata (now : ℕ) (reader : C.Reader) (source : String) : GeoIpMetadata :=
  { source := source, version := "build_" ++ toString (C.buildEpoch reader), lastUpdated := now }

/-- Reads the metadata file. -/
def loadMetadata (metadataFile : String) (disk : Disk) : Except String GeoIpMetadata :=
  match disk.read metadataFile with
  | none => .error "No such file or directory"
  | some bytes =>
      match String.fromUTF8? bytes with
      | none => .error "stream did not contain valid UTF-8"
      | some content => C.metadata.decode content

/-- Writes the metadata file. -/
def saveMetadata (metadata : GeoIpMetadata) (metadataFile : String) (disk : Disk) : Disk :=
  disk.writeAtomic metadataFile (C.metadata.encode metadata).toByteArray

/-! ## Loading -/

/-- Strips the query of a URL, which may have a license key. -/
def sourceForLog (path : String) : String :=
  match Text.splitOnce '?' path.toList with
  | some (base, _) => String.ofList base
  | none => path

/-- Loads a database from a local file. -/
def loadFromFile (now : ℕ) (path : String) (disk : Disk) : Except String (Loaded C) :=
  match disk.read path with
  | none => .error ("Failed to read GeoIP database from " ++ path)
  | some dbBytes =>
      match C.fromSource dbBytes with
      | .error _ => .error ("Failed to parse GeoIP database from " ++ path)
      | .ok reader => .ok (reader, extractMetadata C now reader path)

/-- The files of a database and of its metadata. -/
def geoipCachePaths (cacheDir dbName : String) : String × String :=
  (UnixPath.join cacheDir (dbName ++ ".mmdb"),
    UnixPath.join cacheDir (Text.toAsciiLowercase dbName ++ "_metadata.json"))

/-- The cached database and its metadata, when the metadata is fresh. -/
def tryLoadFromCache (now : ℕ) (cacheFile metadataFile : String) (disk : Disk) :
    Option (Loaded C) :=
  match loadMetadata C metadataFile disk with
  | .error _ => none
  | .ok metadata =>
      if Cache.cacheTtlExceeded now metadata.lastUpdated cacheTtlSecs true then none
      else if disk.has cacheFile = false then none
      else
        match loadFromFile C now cacheFile disk with
        | .ok (reader, _) => some (reader, metadata)
        | .error _ => none

/-- Opens what was downloaded and writes it to the cache, the metadata last. -/
def processDownloadedGeoip (now : ℕ) (downloadedBytes : ByteArray)
    (url dbName cacheFile metadataFile : String) (disk : Disk) :
    Except String (Loaded C × Disk) := do
  let dbBytes ← unpack C downloadedBytes url dbName
  let reader ← (C.fromSource dbBytes).mapError fun _ =>
    "Failed to create owned reader from downloaded database"
  let metadata := extractMetadata C now reader url
  return ((reader, metadata),
    saveMetadata C metadata metadataFile (disk.writeAtomic cacheFile dbBytes))

/-- A completed download. Its time is when it was opened. -/
structure Download where
  url : String
  dbName : String
  bytes : ByteArray
  time : ℕ

/-- The file system, the databases that the process has open, the clock, and the downloads so
far. -/
structure World where
  disk : Disk
  cityReader : Option (Loaded C)
  asnReader : Option (Loaded C)
  now : ℕ
  downloads : List Download

variable {C}

/-- The clock goes on. -/
def World.wait (world : World C) (time : ℕ) : World C :=
  { world with now := world.now + time }

/-- What a load meets: how far the clock goes on before it starts, before it looks at the cache and
until a download is there, and what the network answers in the end. -/
structure Surroundings where
  starts : ℕ
  checks : ℕ
  downloads : ℕ
  network : String → Except String ByteArray

variable (U : UrlCrate)

/-- Loads a database from its cache or, failing that, from a URL. -/
def loadFromUrl (around : Surroundings) (url cacheDir dbName : String) (world : World C) :
    Except String (Loaded C) × World C :=
  let (cacheFile, metadataFile) := geoipCachePaths cacheDir dbName
  let checked := world.wait around.checks
  match tryLoadFromCache C checked.now cacheFile metadataFile checked.disk with
  | some cached => (.ok cached, checked)
  | none =>
      match validateUrlSafe U url with
      | .error _ => (.error ("Unsafe GeoIP URL rejected: " ++ sourceForLog url), checked)
      | .ok () =>
          let waited := checked.wait around.downloads
          match around.network url with
          | .error message => (.error message, waited)
          | .ok bytes =>
              let download : Download :=
                { url := url, dbName := dbName, bytes := bytes, time := waited.now }
              let fetched := { waited with downloads := waited.downloads ++ [download] }
              match processDownloadedGeoip C fetched.now bytes url dbName cacheFile metadataFile
                  fetched.disk with
              | .error message => (.error message, fetched)
              | .ok (loaded, disk) => (.ok loaded, { fetched with disk := disk })

/-! ## What a load does -/

/-- The database was opened from this download, and its metadata is about it. -/
def Download.Gives (download : Download) (loaded : Loaded C) : Prop :=
  (∃ dbBytes, unpack C download.bytes download.url download.dbName = .ok dbBytes ∧
    C.fromSource dbBytes = .ok loaded.1) ∧
  loaded.2 = extractMetadata C download.time loaded.1 download.url

section

variable {now : ℕ} {path cacheFile metadataFile : String} {disk : Disk} {loaded : Loaded C}

/-- A written file is read back. -/
theorem read_writeAtomic {bytes : ByteArray} :
    (disk.writeAtomic path bytes).read path = some bytes := by
  simp [Disk.read, Disk.writeAtomic]

/-- Other files are not touched. -/
theorem read_writeAtomic_of_ne {other : String} {bytes : ByteArray} (hne : other ≠ path) :
    (disk.writeAtomic path bytes).read other = disk.read other := by
  simp [Disk.read, Disk.writeAtomic, Function.update_of_ne hne]

/-- The metadata that was written is read back. -/
theorem loadMetadata_saveMetadata {metadata : GeoIpMetadata} :
    loadMetadata C metadataFile (saveMetadata C metadata metadataFile disk) = .ok metadata := by
  have htext : String.fromUTF8? (C.metadata.encode metadata).toByteArray =
      some (C.metadata.encode metadata) := dif_pos (C.metadata.encode metadata).isValidUTF8
  rw [loadMetadata, saveMetadata, read_writeAtomic]
  show (match String.fromUTF8? (C.metadata.encode metadata).toByteArray with
    | none => _
    | some content => C.metadata.decode content) = _
  rw [htext]
  exact C.metadata.decode_encode metadata

/-- Other files stay as they are. -/
theorem read_saveMetadata_of_ne {metadata : GeoIpMetadata} (hne : path ≠ metadataFile) :
    (saveMetadata C metadata metadataFile disk).read path = disk.read path :=
  read_writeAtomic_of_ne hne

/-- The metadata depend on their own file only. -/
theorem loadMetadata_of_read {other : Disk} (h : other.read path = disk.read path) :
    loadMetadata C path other = loadMetadata C path disk := by
  rw [loadMetadata, loadMetadata, h]

/-- When the cached database is used. -/
theorem tryLoadFromCache_eq_some_iff :
    tryLoadFromCache C now cacheFile metadataFile disk = some loaded ↔
      loadMetadata C metadataFile disk = .ok loaded.2 ∧
      Cache.cacheTtlExceeded now loaded.2.lastUpdated cacheTtlSecs true = false ∧
      ∃ dbBytes, disk.read cacheFile = some dbBytes ∧ C.fromSource dbBytes = .ok loaded.1 := by
  obtain ⟨reader, found⟩ := loaded
  unfold tryLoadFromCache loadFromFile
  cases hmetadata : loadMetadata C metadataFile disk with
  | error message => simp
  | ok metadata =>
      cases hread : disk.read cacheFile with
      | none => simp
      | some dbBytes =>
          have hhas : disk.has cacheFile = true := by
            unfold Disk.read at hread
            unfold Disk.has
            split at hread
            · simp [*]
            · cases hread
          cases hopen : C.fromSource dbBytes with
          | error message => simp [hopen]
          | ok opened =>
              simp only [hhas, Bool.true_eq_false, if_false, hopen, Option.some.injEq,
                Except.ok.injEq, exists_eq_left']
              constructor
              · intro h
                split at h
                case isTrue => cases h
                case isFalse hfresh =>
                  cases h
                  exact ⟨rfl, Bool.eq_false_of_not_eq_true hfresh, rfl⟩
              · intro h
                obtain ⟨rfl, hfresh, rfl⟩ := h
                simp [hfresh]

/-- An opened download, and the files that are left. -/
theorem processDownloadedGeoip_ok_iff {bytes : ByteArray} {url dbName : String} {after : Disk} :
    processDownloadedGeoip C now bytes url dbName cacheFile metadataFile disk =
        .ok (loaded, after) ↔
      ∃ dbBytes, unpack C bytes url dbName = .ok dbBytes ∧ C.fromSource dbBytes = .ok loaded.1 ∧
        loaded.2 = extractMetadata C now loaded.1 url ∧
        after = saveMetadata C loaded.2 metadataFile (disk.writeAtomic cacheFile dbBytes) := by
  obtain ⟨reader, metadata⟩ := loaded
  simp only [processDownloadedGeoip, Except.bind_eq_ok, Except.pure_eq_ok, Prod.mk.injEq]
  constructor
  · intro h
    obtain ⟨dbBytes, hunpack, opened, hopen, ⟨rfl, rfl⟩, rfl⟩ := h
    refine ⟨dbBytes, hunpack, ?_, rfl, rfl⟩
    cases hsource : C.fromSource dbBytes with
    | error message =>
        rw [hsource] at hopen
        cases hopen
    | ok found =>
        rw [hsource] at hopen
        exact hopen
  · intro h
    obtain ⟨dbBytes, hunpack, hopen, rfl, rfl⟩ := h
    refine ⟨dbBytes, hunpack, reader, ?_, ⟨rfl, rfl⟩, rfl⟩
    rw [hopen]
    rfl

end

/-- What a load does: it returns the cached database, or it fails and leaves the files alone, or it
returns what it has downloaded, which then is the cached database. -/
theorem loadFromUrl_cases (around : Surroundings) (url cacheDir dbName : String)
    (world : World C) :
    (∃ loaded,
      tryLoadFromCache C (world.now + around.checks) (geoipCachePaths cacheDir dbName).1
        (geoipCachePaths cacheDir dbName).2 world.disk = some loaded ∧
      loadFromUrl U around url cacheDir dbName world = (.ok loaded, world.wait around.checks)) ∨
    tryLoadFromCache C (world.now + around.checks) (geoipCachePaths cacheDir dbName).1
        (geoipCachePaths cacheDir dbName).2 world.disk = none ∧
      ((∃ message time failed,
        loadFromUrl U around url cacheDir dbName world =
          (.error message,
            { world with now := world.now + time, downloads := world.downloads ++ failed })) ∨
      ∃ (download : Download) (loaded : Loaded C) (dbBytes : ByteArray),
        download.url = url ∧ world.now + around.checks ≤ download.time ∧
        download.Gives loaded ∧ C.fromSource dbBytes = .ok loaded.1 ∧
        loadFromUrl U around url cacheDir dbName world =
          (.ok loaded,
            { world with
              disk := saveMetadata C loaded.2 (geoipCachePaths cacheDir dbName).2
                (world.disk.writeAtomic (geoipCachePaths cacheDir dbName).1 dbBytes)
              now := download.time
              downloads := world.downloads ++ [download] })) := by
  simp only [loadFromUrl, World.wait]
  cases hcached : tryLoadFromCache C (world.now + around.checks)
      (geoipCachePaths cacheDir dbName).1 (geoipCachePaths cacheDir dbName).2 world.disk with
  | some loaded => exact .inl ⟨loaded, rfl, rfl⟩
  | none =>
      refine .inr ⟨rfl, ?_⟩
      cases hsafe : validateUrlSafe U url with
      | error reason =>
          exact .inl ⟨"Unsafe GeoIP URL rejected: " ++ sourceForLog url, around.checks, [], by simp⟩
      | ok checked =>
          cases hanswer : around.network url with
          | error message =>
              exact .inl ⟨message, around.checks + around.downloads, [], by simp [Nat.add_assoc]⟩
          | ok bytes =>
              simp only
              cases hopen : processDownloadedGeoip C
                  (world.now + around.checks + around.downloads) bytes url dbName
                  (geoipCachePaths cacheDir dbName).1 (geoipCachePaths cacheDir dbName).2
                  world.disk with
              | error message =>
                  exact .inl ⟨message, around.checks + around.downloads, _,
                    by rw [Nat.add_assoc]⟩
              | ok opened =>
                  obtain ⟨loaded, disk⟩ := opened
                  obtain ⟨dbBytes, hunpack, hsource, hmetadata, rfl⟩ :=
                    processDownloadedGeoip_ok_iff.mp hopen
                  let download : Download :=
                    { url := url, dbName := dbName, bytes := bytes,
                      time := world.now + around.checks + around.downloads }
                  exact .inr ⟨download, loaded, dbBytes, rfl, Nat.le_add_right _ _,
                    ⟨⟨dbBytes, hunpack, hsource⟩, hmetadata⟩, hsource, rfl⟩

end DomainStatus.Geoip
