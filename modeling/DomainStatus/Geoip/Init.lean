import DomainStatus.Geoip.Loader

/-!
# Initialization of the databases

`init_geoip` of `src/geoip/init/mod.rs` and the ASN database of `src/geoip/init/asn.rs`. The City
database that is open stays open as long as the same path or URL is asked for.
-/

namespace DomainStatus.Geoip

open Security

/-- The databases of a scan. -/
inductive Edition where
  | city
  | asn
  deriving DecidableEq

/-- The name of the database of an edition. -/
def Edition.dbName : Edition → String
  | .city => "GeoLite2-City"
  | .asn => "GeoLite2-ASN"

/-- `MAXMIND_DOWNLOAD_BASE`. -/
def maxmindDownloadBase : String :=
  "https://download.maxmind.com/app/geoip_download"

variable (C : GeoipCrates)

/-- The address of a database for a license key. -/
def maxmindDownloadUrl (editionId licenseKey : String) : String :=
  maxmindDownloadBase ++ "?edition_id=" ++ editionId ++ "&license_key=" ++
    C.byteSerialize licenseKey ++ "&suffix=tar.gz"

/-- Whether a path is for `load_from_url`. -/
def isUrl (path : String) : Bool :=
  Text.startsWith path "http://" || Text.startsWith path "https://"

/-- Whether the cached database is missing or has expired. -/
def shouldDownload (now : ℕ) (cacheDir dbName : String) (disk : Disk) : Bool :=
  let (cacheFile, metadataFile) := geoipCachePaths cacheDir dbName
  match loadMetadata C metadataFile disk with
  | .ok metadata =>
      Cache.cacheTtlExceeded now metadata.lastUpdated cacheTtlSecs true || !disk.has cacheFile
  | .error _ => true

/-- The download URL or the cached file when `MAXMIND_LICENSE_KEY` is set. -/
def resolveFromLicenseKey (now : ℕ) (licenseKey : Option String) (cacheDir : String)
    (disk : Disk) : Option String := do
  let licenseKey ← licenseKey
  if licenseKey = "" then none
  else if shouldDownload C now cacheDir "GeoLite2-City" disk then
    some (maxmindDownloadUrl C "GeoLite2-City" licenseKey)
  else some (geoipCachePaths cacheDir "GeoLite2-City").1

/-- The path or URL of the database, unless lookups are disabled. -/
def resolveGeoipSource (now : ℕ) (geoipPath licenseKey : Option String) (cacheDir : String)
    (disk : Disk) : Option String :=
  match geoipPath with
  | some path =>
      if isUrl path then some path
      else if disk.has path then some path
      else (resolveFromLicenseKey C now licenseKey cacheDir disk).or (some path)
  | none => resolveFromLicenseKey C now licenseKey cacheDir disk

variable {C} (U : UrlCrate)

/-- Opens the cached ASN database, if there is one. -/
def tryLoadAsnFromCache (around : Surroundings) (cacheDir : String) (world : World C) : World C :=
  let cacheFile := (geoipCachePaths cacheDir "GeoLite2-ASN").1
  if world.disk.has cacheFile then
    let waited := world.wait around.checks
    match loadFromFile C waited.now cacheFile waited.disk with
    | .ok loaded => { waited with asnReader := some loaded }
    | .error _ => waited
  else world

/-- Loads the ASN database once. Failures are only logged. -/
def initAsnDatabase (around : Surroundings) (licenseKey : Option String) (cacheDir : String)
    (world : World C) : World C :=
  if world.asnReader.isSome then world
  else
    let started := world.wait around.starts
    match licenseKey.filter fun key => key ≠ "" with
    | none => tryLoadAsnFromCache around cacheDir started
    | some key =>
        if shouldDownload C started.now cacheDir "GeoLite2-ASN" started.disk then
          match loadFromUrl U around (maxmindDownloadUrl C "GeoLite2-ASN" key) cacheDir
              "GeoLite2-ASN" started with
          | (.ok loaded, after) => { after with asnReader := some loaded }
          | (.error _, after) => tryLoadAsnFromCache around cacheDir after
        else tryLoadAsnFromCache around cacheDir started

/-- Opens the City database from a URL or a local file. -/
def loadCity (around : Surroundings) (path cacheDir : String) (world : World C) :
    Except String GeoIpMetadata × World C :=
  let (result, after) :=
    if isUrl path then loadFromUrl U around path cacheDir "GeoLite2-City" world
    else
      let waited := world.wait around.checks
      (loadFromFile C waited.now path waited.disk, waited)
  match result with
  | .ok (reader, metadata) => (.ok metadata, { after with cityReader := some (reader, metadata) })
  | .error message => (.error message, after)

/-- Opens the City database, unless it is open already, and then the ASN database. -/
def initGeoip (city asn : Surroundings) (geoipPath licenseKey : Option String) (cacheDir : String)
    (world : World C) : Except String (Option GeoIpMetadata) × World C :=
  let started := world.wait city.starts
  match resolveGeoipSource C started.now geoipPath licenseKey cacheDir started.disk with
  | none => (.ok none, started)
  | some path =>
      let shouldLoad := match started.cityReader with
        | some (_, metadata) => decide (metadata.source ≠ path)
        | none => true
      let (result, after) :=
        if shouldLoad then loadCity U city path cacheDir started
        else
          match started.cityReader with
          | some (_, metadata) => (.ok metadata, started)
          | none => (.error "GeoIP City reader vanished after already-loaded check", started)
      match result with
      | .error message => (.error message, after)
      | .ok metadata => (.ok (some metadata), initAsnDatabase U asn licenseKey cacheDir after)

end DomainStatus.Geoip
