import DomainStatus.ErrorHandling.Types
import DomainStatus.Fetch.Favicon
import DomainStatus.Fingerprint.Detection
import DomainStatus.Parse.Secrets
import DomainStatus.Whois.Types

/-!
# Records of a scan

What the scan of a page hands to the storage layer, after `src/storage/models.rs`,
`src/storage/record/types.rs` and the modules that the parts of a record come from.
-/

namespace DomainStatus.Storage

open Fetch Fingerprint Whois

/-- A double, by its bits. -/
abbrev F64 := UInt64

/-- The versions of TLS. -/
inductive TlsVersion where
  | tls10 | tls11 | tls12 | tls13 | ssl30 | unknown
  deriving DecidableEq

/-- The text of a version. -/
def TlsVersion.asStr : TlsVersion → String
  | tls10 => "TLSv1.0"
  | tls11 => "TLSv1.1"
  | tls12 => "TLSv1.2"
  | tls13 => "TLSv1.3"
  | ssl30 => "SSLv3"
  | unknown => "Unknown"

/-- The algorithms of public keys. Another one is known by its OID. -/
inductive KeyAlgorithm where
  | rsa | ecdsa | ed25519 | ed448
  | other (oid : String)
  deriving DecidableEq

/-- The text of an algorithm. -/
def KeyAlgorithm.asStr : KeyAlgorithm → String
  | rsa => "RSA"
  | ecdsa => "ECDSA"
  | ed25519 => "Ed25519"
  | ed448 => "Ed448"
  | other oid => oid

/-- The fact about a page. Lists of DNS records are texts in JSON, and times without a zone are
read as UTC. -/
structure UrlRecord where
  initialDomain : String
  finalDomain : String
  initialUrl : Option String
  finalUrl : Option String
  ipAddress : String
  reverseDnsName : Option String
  status : UInt16
  statusDesc : String
  responseTime : F64
  title : String
  description : Option String
  metaRobots : Option String
  tlsVersion : Option TlsVersion
  sslCertSubject : Option String
  sslCertIssuer : Option String
  sslCertValidFrom : Option Chrono.DateTime
  sslCertValidTo : Option Chrono.DateTime
  timestamp : ℤ
  nameservers : Option String
  txtRecords : Option String
  mxRecords : Option String
  spfRecord : Option String
  dmarcRecord : Option String
  cipherSuite : Option String
  keyAlgorithm : Option KeyAlgorithm
  runId : Option String
  bodySha256 : Option String
  bodyTruncated : Bool
  externalScriptsEligible : UInt32
  externalScriptsScanned : UInt32
  contentLength : Option ℤ
  httpVersion : Option String
  contentType : Option String
  canonicalUrl : Option String
  certFingerprintSha256 : Option String
  certSerialNumber : Option String
  certIsSelfSigned : Option Bool
  certIsWildcard : Option Bool
  certIsMismatched : Option Bool
  metaRefreshUrl : Option String
  hstsMaxAge : Option ℤ
  hstsIncludeSubdomains : Option Bool
  hstsPreload : Option Bool
  mtaStsRecord : Option String
  tlsRptRecord : Option String
  bimiRecord : Option String
  cdnProvider : Option String
  deriving DecidableEq, Inhabited

/-- The platforms whose links are stored. -/
inductive SocialPlatform where
  | linkedIn | twitter | facebook | instagram | youTube | gitHub | tikTok | pinterest | snapchat
  | reddit
  deriving DecidableEq

/-- The name of a platform. -/
def SocialPlatform.asStr : SocialPlatform → String
  | linkedIn => "LinkedIn"
  | twitter => "Twitter"
  | facebook => "Facebook"
  | instagram => "Instagram"
  | youTube => "YouTube"
  | gitHub => "GitHub"
  | tikTok => "TikTok"
  | pinterest => "Pinterest"
  | snapchat => "Snapchat"
  | reddit => "Reddit"

/-- A link to a profile, with the name of the profile if it is known. -/
structure SocialMediaLink where
  platform : SocialPlatform
  url : String
  identifier : Option String
  deriving DecidableEq

/-- The kinds of contacts. -/
inductive ContactType where
  | email | phone
  deriving DecidableEq

/-- The text of a kind. -/
def ContactType.asStr : ContactType → String
  | email => "email"
  | phone => "phone"

/-- A contact with the link that it was found in. -/
structure ContactLink where
  contactType : ContactType
  value : String
  rawHref : String
  deriving DecidableEq

/-- The providers whose tracking ids are stored. -/
inductive AnalyticsProvider where
  | googleAnalytics | googleAnalytics4 | facebookPixel | googleTagManager | googleAdSense
  deriving DecidableEq

/-- The name of a provider. -/
def AnalyticsProvider.asStr : AnalyticsProvider → String
  | googleAnalytics => "Google Analytics"
  | googleAnalytics4 => "Google Analytics 4"
  | facebookPixel => "Facebook Pixel"
  | googleTagManager => "Google Tag Manager"
  | googleAdSense => "Google AdSense"

/-- A tracking id. -/
structure AnalyticsId where
  provider : AnalyticsProvider
  id : String
  deriving DecidableEq

/-- Structured data. A document of JSON-LD is kept as its text, which a value of JSON always has. -/
structure StructuredData where
  jsonLd : List String
  openGraph : HashMap String String
  twitterCards : HashMap String String
  schemaTypes : List String

/-- Where an address is, as far as the databases know. -/
structure GeoIpResult where
  countryCode : Option String
  countryName : Option String
  region : Option String
  city : Option String
  latitude : Option F64
  longitude : Option F64
  postalCode : Option String
  timezone : Option String
  asn : Option UInt32
  asnOrg : Option String
  deriving DecidableEq

/-- A cookie that the response sets, with its attributes. -/
structure CookieInfo where
  name : String
  secure : Bool
  httpOnly : Bool
  sameSite : Option String
  domain : Option String
  path : Option String
  deriving DecidableEq

/-- A host that the page loads scripts from. -/
structure ScriptHostInfo where
  host : String
  registrableDomain : Option String
  isFirstParty : Bool
  deriving DecidableEq

/-- The fields of a `security.txt`. -/
structure SecurityTxtData where
  sourceUrl : String
  httpStatus : UInt16
  contacts : List String
  expires : Option String
  encryption : List String
  acknowledgments : List String
  preferredLanguages : Option String
  canonical : List String
  policy : List String
  hiring : List String
  rawBody : String
  deriving DecidableEq

/-- The directives of a `robots.txt`. -/
structure RobotsTxtData where
  httpStatus : UInt16
  rawBody : String
  directives : List (String × String)
  deriving DecidableEq

/-- A part of a scan that failed while the page was stored. -/
structure UrlPartialFailureRecord where
  urlStatusId : ℕ
  errorType : ErrorHandling.ErrorType
  errorMessage : String
  timestamp : ℤ
  runId : Option String
  deriving DecidableEq

/-- A page with all that belongs to it. The object identifiers are a set, in the order of its
iterator. -/
structure PersistedUrlRecord where
  urlRecord : UrlRecord
  securityHeaders : HashMap String String := ∅
  httpHeaders : HashMap String String := ∅
  oids : List String := []
  redirectChain : List (String × UInt16) := []
  technologies : List DetectedTechnology := []
  subjectAlternativeNames : List String := []
  analyticsIds : List AnalyticsId := []
  geoip : Option (String × GeoIpResult) := none
  structuredData : Option StructuredData := none
  socialMediaLinks : List SocialMediaLink := []
  contactLinks : List ContactLink := []
  exposedSecrets : List Secrets.ExposedSecret := []
  whois : Option WhoisResult := none
  partialFailures : List UrlPartialFailureRecord := []
  favicon : Option FaviconData := none
  cnameRecords : Option String := none
  aaaaRecords : Option String := none
  caaRecords : Option String := none
  cspDomains : List (String × String × Option String) := []
  cookies : List CookieInfo := []
  resourceHints : List (String × String) := []
  scriptHosts : List ScriptHostInfo := []
  securityTxt : Option SecurityTxtData := none
  robotsTxt : Option RobotsTxtData := none

end DomainStatus.Storage
