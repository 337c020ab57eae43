import Mathlib.Data.List.Basic
import Mathlib.Tactic.Common

/-!
# Configuration precedence

`config_from_scan_command`, `get_explicit_config_keys` (`src/cli.rs`), `apply_file_config` and
`merge_file_and_cli` (`src/config/merge.rs`), with the two tables of defaults: clap's
(`cli/src/lib.rs`) and `Config::default` (`src/config/types.rs`). `Precedence` states the documented
order command line, environment, file, default for every field that a scan option sets, and
`merge_precedence_iff` says for which inputs the merge meets it.

The fields `progress_callback` and `dependency_overrides`, which the merge sets to `None` and no
option sets, are left out, and so are the options `no_progress` and `config`, which
`config_from_scan_command` does not copy.
-/

namespace DomainStatus.Merge

/-- `domain_status_cli::LogLevel`. -/
inductive LogLevel where
  | error | warn | info | debug | trace
  deriving DecidableEq, Repr

/-- `log::LevelFilter`. -/
inductive LevelFilter where
  | off | error | warn | info | debug | trace
  deriving DecidableEq, Repr

/-- `domain_status_cli::LogFormat`. -/
inductive LogFormat where
  | plain | json
  deriving DecidableEq, Repr

/-- `domain_status_cli::FailOn`. -/
inductive FailOn where
  | never | anyFailure | pctGreaterThan
  deriving DecidableEq, Repr

/-- The counts of `-v` and `-q`, as `clap_verbosity_flag::Verbosity<InfoLevel>` holds them. -/
structure Verbosity where
  verbose : ℕ
  quiet : ℕ
  deriving DecidableEq

/-- The level `Info` moved up by `-v` and down by `-q`, clamped at both ends. -/
def Verbosity.logLevelFilter (verbosity : Verbosity) : LevelFilter :=
  let level : Int := 3 + verbosity.verbose - verbosity.quiet
  if level ≤ 0 then .off
  else if level = 1 then .error
  else if level = 2 then .warn
  else if level = 3 then .info
  else if level = 4 then .debug
  else .trace

/-- `DEFAULT_USER_AGENT`. -/
def defaultUserAgent : String :=
  "Mozilla/5.0 (Windows NT 10.0; Win64; x64) AppleWebKit/537.36 (KHTML, like Gecko) " ++
    "Chrome/131.0.0.0 Safari/537.36"

/-- The scan options that reach the configuration. Paths are strings. -/
structure ScanCommand where
  file : String
  dbPath : String
  timeoutSeconds : ℕ
  maxConcurrency : ℕ
  rateLimitRps : ℕ
  noWhois : Bool
  geoip : Option String
  scanExternalScripts : Bool
  failOn : FailOn
  verbosity : Verbosity
  logLevel : LogLevel
  logFormat : LogFormat
  logFile : String
  failOnPctThreshold : ℕ
  userAgent : String
  fingerprints : Option String
  allowDegradedFingerprints : Bool
  statusPort : Option ℕ
  cacheDir : Option String
  drainTimeoutSecs : ℕ
  enableWhois : Bool
  deriving DecidableEq

/-- `config::Config`. -/
structure Config where
  file : String
  logLevel : LogLevel
  logLevelFilterOverride : Option LevelFilter
  logFormat : LogFormat
  dbPath : String
  maxConcurrency : ℕ
  timeoutSeconds : ℕ
  userAgent : String
  rateLimitRps : ℕ
  fingerprints : Option String
  geoip : Option String
  statusPort : Option ℕ
  enableWhois : Bool
  cacheDir : Option String
  scanExternalScripts : Bool
  failOn : FailOn
  failOnPctThreshold : ℕ
  logFile : Option String
  allowLocalhostForTests : Bool
  drainTimeoutSecs : ℕ
  allowDegradedFingerprints : Bool
  deriving DecidableEq

/-- `Config::default()`. -/
def Config.default : Config :=
  { file := "urls.txt"
    logLevel := .info
    logLevelFilterOverride := none
    logFormat := .plain
    dbPath := "./domain_status.db"
    maxConcurrency := 30
    timeoutSeconds := 10
    userAgent := defaultUserAgent
    rateLimitRps := 15
    fingerprints := none
    geoip := none
    statusPort := none
    enableWhois := true
    cacheDir := none
    scanExternalScripts := false
    failOn := .never
    failOnPctThreshold := 10
    logFile := none
    allowLocalhostForTests := false
    drainTimeoutSecs := 10
    allowDegradedFingerprints := false }

/-- The typed TOML overlay: a key absent from the file is `none`. -/
structure FileConfig where
  file : Option String
  logLevel : Option LogLevel
  logFormat : Option LogFormat
  dbPath : Option String
  maxConcurrency : Option ℕ
  timeoutSeconds : Option ℕ
  userAgent : Option String
  rateLimitRps : Option ℕ
  fingerprints : Option String
  geoip : Option String
  statusPort : Option ℕ
  enableWhois : Option Bool
  cacheDir : Option String
  scanExternalScripts : Option Bool
  failOn : Option FailOn
  failOnPctThreshold : Option ℕ
  logFile : Option String
  drainTimeoutSecs : Option ℕ
  deriving DecidableEq

/-! ## The program -/

/-- The configuration of the parsed scan command, before the merge. -/
def configFromScanCommand (cli : ScanCommand) : Config :=
  { file := cli.file
    logLevel := cli.logLevel
    logFormat := cli.logFormat
    logLevelFilterOverride :=
      (some cli.verbosity.logLevelFilter).filter fun filter => filter ≠ .info
    dbPath := cli.dbPath
    maxConcurrency := cli.maxConcurrency
    timeoutSeconds := cli.timeoutSeconds
    userAgent := cli.userAgent
    rateLimitRps := cli.rateLimitRps
    fingerprints := cli.fingerprints
    allowDegradedFingerprints := cli.allowDegradedFingerprints
    geoip := cli.geoip
    statusPort := cli.statusPort
    enableWhois := if cli.noWhois then false else cli.enableWhois
    cacheDir := cli.cacheDir
    scanExternalScripts := cli.scanExternalScripts
    failOn := cli.failOn
    failOnPctThreshold := cli.failOnPctThreshold
    logFile := some cli.logFile
    allowLocalhostForTests := false
    drainTimeoutSecs := cli.drainTimeoutSecs }

/-- Applies the keys that the file has. -/
def applyFileConfig (config : Config) (file : FileConfig) : Config :=
  { config with
    file := file.file.getD config.file
    dbPath := file.dbPath.getD config.dbPath
    logFile := file.logFile.or config.logFile
    logLevel := file.logLevel.getD config.logLevel
    logFormat := file.logFormat.getD config.logFormat
    maxConcurrency := file.maxConcurrency.getD config.maxConcurrency
    timeoutSeconds := file.timeoutSeconds.getD config.timeoutSeconds
    drainTimeoutSecs := file.drainTimeoutSecs.getD config.drainTimeoutSecs
    userAgent := file.userAgent.getD config.userAgent
    rateLimitRps := file.rateLimitRps.getD config.rateLimitRps
    fingerprints := file.fingerprints.or config.fingerprints
    geoip := file.geoip.or config.geoip
    statusPort := file.statusPort.or config.statusPort
    enableWhois := file.enableWhois.getD config.enableWhois
    cacheDir := file.cacheDir.or config.cacheDir
    scanExternalScripts := file.scanExternalScripts.getD config.scanExternalScripts
    failOn := file.failOn.getD config.failOn
    failOnPctThreshold := file.failOnPctThreshold.getD config.failOnPctThreshold }

/-- Merges the overlay and the command line. With `cliExplicit = some keys` only the fields whose
key is listed are taken from the command line. -/
def mergeFileAndCli (file : Option FileConfig) (cliConfig : Config)
    (cliExplicit : Option (List String)) : Config :=
  let overwrite (key : String) : Bool :=
    match cliExplicit with
    | none => true
    | some keys => keys.contains key
  let config := match file with
    | some file => applyFileConfig Config.default file
    | none => Config.default
  { file := if overwrite "file" then cliConfig.file else config.file
    logLevel := if overwrite "log_level" then cliConfig.logLevel else config.logLevel
    logLevelFilterOverride :=
      if overwrite "log_level_filter_override" then cliConfig.logLevelFilterOverride
      else config.logLevelFilterOverride
    logFormat := if overwrite "log_format" then cliConfig.logFormat else config.logFormat
    dbPath := if overwrite "db_path" then cliConfig.dbPath else config.dbPath
    maxConcurrency :=
      if overwrite "max_concurrency" then cliConfig.maxConcurrency else config.maxConcurrency
    timeoutSeconds :=
      if overwrite "timeout_seconds" then cliConfig.timeoutSeconds else config.timeoutSeconds
    userAgent := if overwrite "user_agent" then cliConfig.userAgent else config.userAgent
    rateLimitRps :=
      if overwrite "rate_limit_rps" then cliConfig.rateLimitRps else config.rateLimitRps
    fingerprints :=
      if overwrite "fingerprints" then cliConfig.fingerprints else config.fingerprints
    geoip := if overwrite "geoip" then cliConfig.geoip else config.geoip
    statusPort := if overwrite "status_port" then cliConfig.statusPort else config.statusPort
    enableWhois :=
      -- `--no-whois` is applied last and wins over both other sources.
      if overwrite "no_whois" then false
      else if overwrite "enable_whois" then cliConfig.enableWhois else config.enableWhois
    cacheDir := if overwrite "cache_dir" then cliConfig.cacheDir else config.cacheDir
    scanExternalScripts :=
      if overwrite "scan_external_scripts" then cliConfig.scanExternalScripts
      else config.scanExternalScripts
    failOn := if overwrite "fail_on" then cliConfig.failOn else config.failOn
    failOnPctThreshold :=
      if overwrite "fail_on_pct_threshold" then cliConfig.failOnPctThreshold
      else config.failOnPctThreshold
    logFile := if overwrite "log_file" then cliConfig.logFile else config.logFile
    drainTimeoutSecs :=
      if overwrite "drain_timeout_secs" then cliConfig.drainTimeoutSecs
      else config.drainTimeoutSecs
    allowLocalhostForTests := false
    -- No statement of the merge assigns this field.
    allowDegradedFingerprints := config.allowDegradedFingerprints }

/-- `SCAN_CONFIG_ARG_IDS`. -/
def scanConfigArgIds : List String :=
  ["file", "log_level", "log_format", "db_path", "max_concurrency", "timeout_seconds",
    "user_agent", "rate_limit_rps", "fingerprints", "geoip", "status_port", "enable_whois",
    "no_whois", "cache_dir", "scan_external_scripts", "fail_on", "fail_on_pct_threshold",
    "log_file", "drain_timeout_secs"]

/-- `clap::parser::ValueSource`. -/
inductive ValueSource where
  | defaultValue | envVariable | commandLine
  deriving DecidableEq

/-- `ArgMatches::value_source`: where each argument's value came from. -/
abbrev ArgMatches := String → Option ValueSource

/-- The argument was set on the command line or by the environment. -/
def ArgMatches.explicit (scanMatches : ArgMatches) (id : String) : Bool :=
  match scanMatches id with
  | some .commandLine | some .envVariable => true
  | _ => false

/-- The keys of the arguments that the user set. -/
def getExplicitConfigKeys (scanMatches : ArgMatches) : List String :=
  scanConfigArgIds.filter scanMatches.explicit ++
    if ["verbose", "quiet"].any scanMatches.explicit then ["log_level_filter_override"] else []

/-! ## What clap hands over -/

/-- A scan command with the origin of each value, as clap parses it: an option that the user did
not set has clap's default, the positional `file` is required, and the plain flag `--no-whois` is
on exactly when it was given. -/
structure ParsedScan where
  command : ScanCommand
  scanMatches : ArgMatches
  file_set : scanMatches.explicit "file" = true
  dbPath_default : scanMatches.explicit "db_path" = false → command.dbPath = "./domain_status.db"
  timeoutSeconds_default :
    scanMatches.explicit "timeout_seconds" = false → command.timeoutSeconds = 10
  maxConcurrency_default :
    scanMatches.explicit "max_concurrency" = false → command.maxConcurrency = 30
  rateLimitRps_default :
    scanMatches.explicit "rate_limit_rps" = false → command.rateLimitRps = 15
  noWhois_flag : command.noWhois = scanMatches.explicit "no_whois"
  geoip_default : scanMatches.explicit "geoip" = false → command.geoip = none
  scanExternalScripts_default :
    scanMatches.explicit "scan_external_scripts" = false → command.scanExternalScripts = false
  failOn_default : scanMatches.explicit "fail_on" = false → command.failOn = .never
  verbose_default : scanMatches.explicit "verbose" = false → command.verbosity.verbose = 0
  quiet_default : scanMatches.explicit "quiet" = false → command.verbosity.quiet = 0
  logLevel_default : scanMatches.explicit "log_level" = false → command.logLevel = .info
  logFormat_default : scanMatches.explicit "log_format" = false → command.logFormat = .plain
  logFile_default :
    scanMatches.explicit "log_file" = false → command.logFile = "domain_status.log"
  failOnPctThreshold_default :
    scanMatches.explicit "fail_on_pct_threshold" = false → command.failOnPctThreshold = 10
  userAgent_default :
    scanMatches.explicit "user_agent" = false → command.userAgent = defaultUserAgent
  fingerprints_default : scanMatches.explicit "fingerprints" = false → command.fingerprints = none
  allowDegradedFingerprints_default :
    scanMatches.explicit "allow_degraded_fingerprints" = false →
      command.allowDegradedFingerprints = false
  statusPort_default : scanMatches.explicit "status_port" = false → command.statusPort = none
  cacheDir_default : scanMatches.explicit "cache_dir" = false → command.cacheDir = none
  drainTimeoutSecs_default :
    scanMatches.explicit "drain_timeout_secs" = false → command.drainTimeoutSecs = 10
  enableWhois_default : scanMatches.explicit "enable_whois" = false → command.enableWhois = true

/-- The merge as `build_config_from_scan_command` calls it. -/
def buildConfig (parsed : ParsedScan) (file : Option FileConfig) : Config :=
  mergeFileAndCli file (configFromScanCommand parsed.command)
    (some (getExplicitConfigKeys parsed.scanMatches))

/-! ## The documented order -/

/-- The command line or environment value if there is one, else the file's, else the default that
the parsed command already holds. -/
def chosen {α : Type*} (explicit : Bool) (cli : α) (file : Option α) : α :=
  if explicit then cli else file.getD cli

/-- Every field that a scan option sets follows the documented order, and `--no-whois` always turns
WHOIS off. The overlay has no key for the verbosity and for degraded fingerprints. -/
structure Precedence (parsed : ParsedScan) (overlay : Option FileConfig) (config : Config) :
    Prop where
  file : config.file = chosen (parsed.scanMatches.explicit "file")
    (configFromScanCommand parsed.command).file (overlay.bind (·.file))
  logLevel : config.logLevel = chosen (parsed.scanMatches.explicit "log_level")
    (configFromScanCommand parsed.command).logLevel (overlay.bind (·.logLevel))
  logLevelFilterOverride : config.logLevelFilterOverride =
    (configFromScanCommand parsed.command).logLevelFilterOverride
  logFormat : config.logFormat = chosen (parsed.scanMatches.explicit "log_format")
    (configFromScanCommand parsed.command).logFormat (overlay.bind (·.logFormat))
  dbPath : config.dbPath = chosen (parsed.scanMatches.explicit "db_path")
    (configFromScanCommand parsed.command).dbPath (overlay.bind (·.dbPath))
  maxConcurrency : config.maxConcurrency = chosen (parsed.scanMatches.explicit "max_concurrency")
    (configFromScanCommand parsed.command).maxConcurrency (overlay.bind (·.maxConcurrency))
  timeoutSeconds : config.timeoutSeconds = chosen (parsed.scanMatches.explicit "timeout_seconds")
    (configFromScanCommand parsed.command).timeoutSeconds (overlay.bind (·.timeoutSeconds))
  userAgent : config.userAgent = chosen (parsed.scanMatches.explicit "user_agent")
    (configFromScanCommand parsed.command).userAgent (overlay.bind (·.userAgent))
  rateLimitRps : config.rateLimitRps = chosen (parsed.scanMatches.explicit "rate_limit_rps")
    (configFromScanCommand parsed.command).rateLimitRps (overlay.bind (·.rateLimitRps))
  fingerprints : config.fingerprints = chosen (parsed.scanMatches.explicit "fingerprints")
    (configFromScanCommand parsed.command).fingerprints
    (overlay.bind fun file => file.fingerprints.map some)
  allowDegradedFingerprints : config.allowDegradedFingerprints =
    (configFromScanCommand parsed.command).allowDegradedFingerprints
  geoip : config.geoip = chosen (parsed.scanMatches.explicit "geoip")
    (configFromScanCommand parsed.command).geoip (overlay.bind fun file => file.geoip.map some)
  statusPort : config.statusPort = chosen (parsed.scanMatches.explicit "status_port")
    (configFromScanCommand parsed.command).statusPort
    (overlay.bind fun file => file.statusPort.map some)
  enableWhois : config.enableWhois = chosen
    (parsed.scanMatches.explicit "enable_whois" || parsed.scanMatches.explicit "no_whois")
    (configFromScanCommand parsed.command).enableWhois (overlay.bind (·.enableWhois))
  noWhois : parsed.scanMatches.explicit "no_whois" = true → config.enableWhois = false
  cacheDir : config.cacheDir = chosen (parsed.scanMatches.explicit "cache_dir")
    (configFromScanCommand parsed.command).cacheDir
    (overlay.bind fun file => file.cacheDir.map some)
  scanExternalScripts : config.scanExternalScripts =
    chosen (parsed.scanMatches.explicit "scan_external_scripts")
    (configFromScanCommand parsed.command).scanExternalScripts
    (overlay.bind (·.scanExternalScripts))
  failOn : config.failOn = chosen (parsed.scanMatches.explicit "fail_on")
    (configFromScanCommand parsed.command).failOn (overlay.bind (·.failOn))
  failOnPctThreshold : config.failOnPctThreshold =
    chosen (parsed.scanMatches.explicit "fail_on_pct_threshold")
    (configFromScanCommand parsed.command).failOnPctThreshold
    (overlay.bind (·.failOnPctThreshold))
  logFile : config.logFile = chosen (parsed.scanMatches.explicit "log_file")
    (configFromScanCommand parsed.command).logFile (overlay.bind fun file => file.logFile.map some)
  drainTimeoutSecs : config.drainTimeoutSecs =
    chosen (parsed.scanMatches.explicit "drain_timeout_secs")
    (configFromScanCommand parsed.command).drainTimeoutSecs (overlay.bind (·.drainTimeoutSecs))

/-! ## Which inputs the merge serves -/

variable {scanMatches : ArgMatches}

/-- A key of `SCAN_CONFIG_ARG_IDS` is overwritten exactly when its argument was set. -/
theorem contains_explicit_keys {key : String} (hkey : key ∈ scanConfigArgIds) :
    (getExplicitConfigKeys scanMatches).contains key = scanMatches.explicit key := by
  have hother : key ≠ "log_level_filter_override" := by
    rintro rfl
    exact absurd hkey (by decide)
  have hmem : key ∈ getExplicitConfigKeys scanMatches ↔ scanMatches.explicit key = true := by
    simp only [getExplicitConfigKeys, List.mem_append, List.mem_filter, hkey, true_and]
    split <;> simp [hother]
  rw [Bool.eq_iff_iff, List.contains_iff_mem, hmem]

/-- Either of the two flags counts as an explicit level. -/
theorem contains_verbosity_key :
    (getExplicitConfigKeys scanMatches).contains "log_level_filter_override" =
      (scanMatches.explicit "verbose" || scanMatches.explicit "quiet") := by
  have habsent : "log_level_filter_override" ∉ scanConfigArgIds := by decide
  have hmem : "log_level_filter_override" ∈ getExplicitConfigKeys scanMatches ↔
      (scanMatches.explicit "verbose" || scanMatches.explicit "quiet") = true := by
    simp only [getExplicitConfigKeys, List.mem_append, List.mem_filter, habsent, false_and,
      false_or]
    split
    case isTrue h => simpa using h
    case isFalse h => simpa using h
  rw [Bool.eq_iff_iff, List.contains_iff_mem, hmem]

/-- Overwriting the overlaid default with an explicit value follows the documented order when the
two tables of defaults agree. -/
theorem overlay_eq_chosen {α : Type*} {explicit : Bool} {cli default : α} (file : Option α)
    (hdefault : explicit = false → cli = default) :
    (if explicit then cli else file.getD default) = chosen explicit cli file := by
  cases explicit with
  | false => simp [chosen, hdefault rfl]
  | true => rfl

/-- The same for a field that is itself optional: the file's value is then present. -/
theorem overlay_eq_chosen_option {α : Type*} {explicit : Bool} {cli : Option α}
    (file : Option α) (hdefault : explicit = false → cli = none) :
    (if explicit then cli else file.or none) = chosen explicit cli (file.map some) := by
  cases explicit with
  | false => cases file <;> simp [chosen, hdefault rfl]
  | true => rfl

section Fields

variable {α : Type*} (parsed : ParsedScan) {key : String}

/-- A plain field of the merged configuration follows the documented order. -/
theorem merged_field (hkey : key ∈ scanConfigArgIds) {cli base default : α} {file : Option α}
    (hbase : base = file.getD default)
    (hdefault : parsed.scanMatches.explicit key = false → cli = default) :
    (if (getExplicitConfigKeys parsed.scanMatches).contains key then cli else base) =
      chosen (parsed.scanMatches.explicit key) cli file := by
  rw [contains_explicit_keys hkey, hbase]
  exact overlay_eq_chosen file hdefault

/-- An optional field of the merged configuration follows the documented order. -/
theorem merged_option_field (hkey : key ∈ scanConfigArgIds) {cli base : Option α}
    (overlay : Option FileConfig) (get : FileConfig → Option α)
    (hbase : base = (overlay.bind get).or none)
    (hdefault : parsed.scanMatches.explicit key = false → cli = none) :
    (if (getExplicitConfigKeys parsed.scanMatches).contains key then cli else base) =
      chosen (parsed.scanMatches.explicit key) cli
        (overlay.bind fun file => (get file).map some) := by
  have hfile : (overlay.bind fun file => (get file).map some) = (overlay.bind get).map some := by
    cases overlay <;> rfl
  rw [contains_explicit_keys hkey, hbase, hfile]
  exact overlay_eq_chosen_option (overlay.bind get) hdefault

end Fields

/-- Without `-v` and `-q` the verbosity overrides nothing. -/
theorem verbosity_default (parsed : ParsedScan)
    (hverbose : parsed.scanMatches.explicit "verbose" = false)
    (hquiet : parsed.scanMatches.explicit "quiet" = false) :
    (configFromScanCommand parsed.command).logLevelFilterOverride = none := by
  simp [configFromScanCommand, Verbosity.logLevelFilter, parsed.verbose_default hverbose,
    parsed.quiet_default hquiet, Option.filter]

/-- The level of the command line is taken. -/
theorem merged_log_level_filter_override (parsed : ParsedScan) (overlay : Option FileConfig) :
    (buildConfig parsed overlay).logLevelFilterOverride =
      (configFromScanCommand parsed.command).logLevelFilterOverride := by
  have hfield : (buildConfig parsed overlay).logLevelFilterOverride =
      if (getExplicitConfigKeys parsed.scanMatches).contains "log_level_filter_override" then
        (configFromScanCommand parsed.command).logLevelFilterOverride
      else none := by
    cases overlay <;> rfl
  rw [hfield, contains_verbosity_key]
  cases hverbose : parsed.scanMatches.explicit "verbose" <;>
    cases hquiet : parsed.scanMatches.explicit "quiet" <;>
    simp [verbosity_default, hverbose, hquiet]

/-- WHOIS is driven by two keys: `--no-whois` decides, then `--enable-whois`, then the file. -/
theorem merged_enable_whois (parsed : ParsedScan) (overlay : Option FileConfig) :
    (buildConfig parsed overlay).enableWhois =
      if parsed.scanMatches.explicit "no_whois" then false
      else if parsed.scanMatches.explicit "enable_whois" then parsed.command.enableWhois
      else (overlay.bind (·.enableWhois)).getD true := by
  have hoff : parsed.scanMatches.explicit "no_whois" = false →
      (configFromScanCommand parsed.command).enableWhois = parsed.command.enableWhois := by
    intro h
    simp [configFromScanCommand, parsed.noWhois_flag, h]
  have hfield : (buildConfig parsed overlay).enableWhois =
      if (getExplicitConfigKeys parsed.scanMatches).contains "no_whois" then false
      else if (getExplicitConfigKeys parsed.scanMatches).contains "enable_whois" then
        (configFromScanCommand parsed.command).enableWhois
      else (overlay.bind (·.enableWhois)).getD true := by
    cases overlay <;> rfl
  rw [hfield, contains_explicit_keys (by decide), contains_explicit_keys (by decide)]
  cases hno : parsed.scanMatches.explicit "no_whois" with
  | true => rfl
  | false => rw [hoff hno]

/-- WHOIS follows the documented order, with `--no-whois` counted as a choice of it. -/
theorem merged_enable_whois_eq_chosen (parsed : ParsedScan) (overlay : Option FileConfig) :
    (buildConfig parsed overlay).enableWhois = chosen
      (parsed.scanMatches.explicit "enable_whois" || parsed.scanMatches.explicit "no_whois")
      (configFromScanCommand parsed.command).enableWhois (overlay.bind (·.enableWhois)) := by
  rw [merged_enable_whois]
  cases hno : parsed.scanMatches.explicit "no_whois" with
  | true => simp [chosen, configFromScanCommand, parsed.noWhois_flag, hno]
  | false =>
      cases hyes : parsed.scanMatches.explicit "enable_whois" with
      | true => simp [chosen, configFromScanCommand, parsed.noWhois_flag, hno]
      | false =>
          simp [chosen, configFromScanCommand, parsed.noWhois_flag, hno,
            parsed.enableWhois_default hyes]

/-- An explicit log file of the command line comes before the one of the file. -/
theorem merged_log_file (parsed : ParsedScan) (overlay : Option FileConfig) :
    (buildConfig parsed overlay).logFile =
      if parsed.scanMatches.explicit "log_file" then some parsed.command.logFile
      else overlay.bind (·.logFile) := by
  have hfield : (buildConfig parsed overlay).logFile =
      if (getExplicitConfigKeys parsed.scanMatches).contains "log_file" then
        some parsed.command.logFile
      else overlay.bind (·.logFile) := by
    cases overlay with
    | none => rfl
    | some file =>
        cases hfile : file.logFile <;>
          simp [buildConfig, mergeFileAndCli, applyFileConfig, configFromScanCommand,
            Config.default, hfile]
  rw [hfield, contains_explicit_keys (by decide)]

/-- The log file follows the documented order exactly when it is set somewhere: clap's default for
it does not reach the merged configuration. -/
theorem merged_log_file_eq_chosen_iff (parsed : ParsedScan) (overlay : Option FileConfig) :
    (buildConfig parsed overlay).logFile = chosen (parsed.scanMatches.explicit "log_file")
        (configFromScanCommand parsed.command).logFile
        (overlay.bind fun file => file.logFile.map some) ↔
      parsed.scanMatches.explicit "log_file" = true ∨
        (overlay.bind (·.logFile)).isSome = true := by
  have hfile : (overlay.bind fun file => file.logFile.map some) =
      (overlay.bind (·.logFile)).map some := by
    cases overlay <;> rfl
  rw [merged_log_file, hfile]
  cases parsed.scanMatches.explicit "log_file" with
  | true => simp [chosen, configFromScanCommand]
  | false => cases overlay.bind (·.logFile) <;> simp [chosen, configFromScanCommand]

/-- The merge drops the command line's choice of degraded fingerprints. -/
theorem merged_allow_degraded_fingerprints (parsed : ParsedScan) (overlay : Option FileConfig) :
    (buildConfig parsed overlay).allowDegradedFingerprints = false := by
  cases overlay <;> rfl

/-- The merge follows the documented order exactly when degraded fingerprints are not allowed on
the command line and the log file is set on the command line, by the environment or in the file. -/
theorem merge_precedence_iff (parsed : ParsedScan) (overlay : Option FileConfig) :
    Precedence parsed overlay (buildConfig parsed overlay) ↔
      parsed.command.allowDegradedFingerprints = false ∧
        (parsed.scanMatches.explicit "log_file" = true ∨
          (overlay.bind (·.logFile)).isSome = true) := by
  constructor
  · intro h
    refine ⟨?_, ?_⟩
    · have hdegraded := h.allowDegradedFingerprints
      rw [merged_allow_degraded_fingerprints] at hdegraded
      exact hdegraded.symm
    · exact (merged_log_file_eq_chosen_iff parsed overlay).mp h.logFile
  · intro h
    obtain ⟨hdegraded, hlog⟩ := h
    exact
      { file := merged_field parsed (by decide)
          (show _ = Option.getD _ "urls.txt" by cases overlay <;> rfl)
          (fun h => by simp [parsed.file_set] at h)
        logLevel := merged_field parsed (by decide) (by cases overlay <;> rfl)
          parsed.logLevel_default
        logLevelFilterOverride := merged_log_level_filter_override parsed overlay
        logFormat := merged_field parsed (by decide) (by cases overlay <;> rfl)
          parsed.logFormat_default
        dbPath := merged_field parsed (by decide) (by cases overlay <;> rfl)
          parsed.dbPath_default
        maxConcurrency := merged_field parsed (by decide) (by cases overlay <;> rfl)
          parsed.maxConcurrency_default
        timeoutSeconds := merged_field parsed (by decide) (by cases overlay <;> rfl)
          parsed.timeoutSeconds_default
        userAgent := merged_field parsed (by decide) (by cases overlay <;> rfl)
          parsed.userAgent_default
        rateLimitRps := merged_field parsed (by decide) (by cases overlay <;> rfl)
          parsed.rateLimitRps_default
        fingerprints := merged_option_field parsed (by decide) overlay (·.fingerprints)
          (by cases overlay <;> rfl) parsed.fingerprints_default
        allowDegradedFingerprints := by
          rw [merged_allow_degraded_fingerprints]
          exact hdegraded.symm
        geoip := merged_option_field parsed (by decide) overlay (·.geoip)
          (by cases overlay <;> rfl) parsed.geoip_default
        statusPort := merged_option_field parsed (by decide) overlay (·.statusPort)
          (by cases overlay <;> rfl) parsed.statusPort_default
        enableWhois := merged_enable_whois_eq_chosen parsed overlay
        noWhois := fun hno => by rw [merged_enable_whois, hno, if_pos rfl]
        cacheDir := merged_option_field parsed (by decide) overlay (·.cacheDir)
          (by cases overlay <;> rfl) parsed.cacheDir_default
        scanExternalScripts := merged_field parsed (by decide) (by cases overlay <;> rfl)
          parsed.scanExternalScripts_default
        failOn := merged_field parsed (by decide) (by cases overlay <;> rfl)
          parsed.failOn_default
        failOnPctThreshold := merged_field parsed (by decide) (by cases overlay <;> rfl)
          parsed.failOnPctThreshold_default
        logFile := (merged_log_file_eq_chosen_iff parsed overlay).mpr hlog
        drainTimeoutSecs := merged_field parsed (by decide) (by cases overlay <;> rfl)
          parsed.drainTimeoutSecs_default }

/-- `scan urls.txt --log-file scan.log --allow-degraded-fingerprints`, with every other option at
clap's default. -/
def degradedScan : ParsedScan where
  command :=
    { file := "urls.txt", dbPath := "./domain_status.db", timeoutSeconds := 10
      maxConcurrency := 30, rateLimitRps := 15, noWhois := false, geoip := none
      scanExternalScripts := false, failOn := .never, verbosity := ⟨0, 0⟩, logLevel := .info
      logFormat := .plain, logFile := "scan.log", failOnPctThreshold := 10
      userAgent := defaultUserAgent, fingerprints := none, allowDegradedFingerprints := true
      statusPort := none, cacheDir := none, drainTimeoutSecs := 10, enableWhois := true }
  scanMatches id :=
    if ["file", "log_file", "allow_degraded_fingerprints"].contains id then some .commandLine
    else some .defaultValue
  file_set := rfl
  dbPath_default _ := rfl
  timeoutSeconds_default _ := rfl
  maxConcurrency_default _ := rfl
  rateLimitRps_default _ := rfl
  noWhois_flag := rfl
  geoip_default _ := rfl
  scanExternalScripts_default _ := rfl
  failOn_default _ := rfl
  verbose_default _ := rfl
  quiet_default _ := rfl
  logLevel_default _ := rfl
  logFormat_default _ := rfl
  logFile_default h := by cases h
  failOnPctThreshold_default _ := rfl
  userAgent_default _ := rfl
  fingerprints_default _ := rfl
  allowDegradedFingerprints_default h := by cases h
  statusPort_default _ := rfl
  cacheDir_default _ := rfl
  drainTimeoutSecs_default _ := rfl
  enableWhois_default _ := rfl

/-- The flag `--allow-degraded-fingerprints` is lost in the merge. -/
theorem merge_loses_allow_degraded_fingerprints :
    ¬ ∀ (parsed : ParsedScan) (overlay : Option FileConfig),
      Precedence parsed overlay (buildConfig parsed overlay) := by
  intro h
  exact absurd (h degradedScan none).allowDegradedFingerprints (by decide)

end DomainStatus.Merge
