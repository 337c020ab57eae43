import DomainStatus.Lib.Distinct
import DomainStatus.Lib.Regex
import DomainStatus.Storage.Models

/-!
# Social media links

`extract_social_media_links` of `src/parse/social.rs`, on the values of `href` of the anchors of a
page. Read `captures_urlPattern` first: a pattern of a platform finds the first place in a text at
which a URL of the platform stands.
-/

namespace DomainStatus.Social

open Storage

/-- `[^/?#]`. -/
def isSegmentChar (c : Char) : Bool :=
  !(c == '/' || c == '?' || c == '#')

/-- `https?://(?:www\.)?`, a host, `/` and the start of a path. -/
def urlLead (host path : Regex) : Regex :=
  .seq (.lit "http".toList)
    (.seq (.opt (.lit ['s']))
      (.seq (.lit "://".toList)
        (.seq (.opt (.lit "www.".toList)) (.seq host (.seq (.lit ['/']) path)))))

/-- The start of a URL and `([^/?#]+)`. -/
def urlPattern (host path : Regex) : Regex :=
  .seq (urlLead host path) (.group 1 (.plus (.set isSegmentChar)))

/-- `https?://(?:www\.)?linkedin\.com/(?:company|in|pub)/([^/?#]+)`. -/
def linkedinUrlPattern : Regex :=
  urlPattern (.lit "linkedin.com".toList)
    (.seq (.oneOf ["company".toList, "in".toList, "pub".toList]) (.lit ['/']))

/-- `https?://(?:www\.)?(?:twitter\.com|x\.com)/([^/?#]+)`. -/
def twitterUrlPattern : Regex :=
  urlPattern (.oneOf ["twitter.com".toList, "x.com".toList]) .empty

/-- `https?://(?:www\.)?facebook\.com/([^/?#]+)`. -/
def facebookUrlPattern : Regex :=
  urlPattern (.lit "facebook.com".toList) .empty

/-- `https?://(?:www\.)?instagram\.com/([^/?#]+)`. -/
def instagramUrlPattern : Regex :=
  urlPattern (.lit "instagram.com".toList) .empty

/-- `https?://(?:www\.)?youtube\.com/(?:channel|c|user)/([^/?#]+)`. -/
def youtubeUrlPattern : Regex :=
  urlPattern (.lit "youtube.com".toList)
    (.seq (.oneOf ["channel".toList, "c".toList, "user".toList]) (.lit ['/']))

/-- `https?://(?:www\.)?github\.com/([^/?#]+)`. -/
def githubUrlPattern : Regex :=
  urlPattern (.lit "github.com".toList) .empty

/-- `https?://(?:www\.)?tiktok\.com/@([^/?#]+)`. -/
def tiktokUrlPattern : Regex :=
  urlPattern (.lit "tiktok.com".toList) (.lit ['@'])

/-- `https?://(?:www\.)?pinterest\.(?:com|co\.uk)/([^/?#]+)`. -/
def pinterestUrlPattern : Regex :=
  urlPattern (.seq (.lit "pinterest.".toList) (.oneOf ["com".toList, "co.uk".toList])) .empty

/-- `https?://(?:www\.)?snapchat\.com/add/([^/?#]+)`. -/
def snapchatUrlPattern : Regex :=
  urlPattern (.lit "snapchat.com".toList) (.lit "add/".toList)

/-- `https?://(?:www\.)?reddit\.com/(?:r|u)/([^/?#]+)`. -/
def redditUrlPattern : Regex :=
  urlPattern (.lit "reddit.com".toList) (.seq (.oneOf [['r'], ['u']]) (.lit ['/']))

/-- The patterns of the platforms, in the order in which they are tried. -/
def socialPatterns : List (Regex × SocialPlatform) :=
  [(linkedinUrlPattern, .linkedIn), (twitterUrlPattern, .twitter), (facebookUrlPattern, .facebook),
    (instagramUrlPattern, .instagram), (youtubeUrlPattern, .youTube), (githubUrlPattern, .gitHub),
    (tiktokUrlPattern, .tikTok), (pinterestUrlPattern, .pinterest), (snapchatUrlPattern, .snapchat),
    (redditUrlPattern, .reddit)]

/-- The URL that is recorded for an `href`. One relative to the root of the page has none. -/
def fullUrl (href : List Char) : Option (List Char) :=
  if "http://".toList.isPrefixOf href || "https://".toList.isPrefixOf href then some href
  else if "//".toList.isPrefixOf href then some ("https:".toList ++ href)
  else if "/".toList.isPrefixOf href then none
  else some ("https://".toList ++ href)

/-- The loop over the patterns, which ends at the first one that matches, except that a link
without a URL goes on with the next pattern. -/
def matchPatterns (href : List Char) : List (Regex × SocialPlatform) → Option SocialMediaLink
  | [] => none
  | (re, platform) :: patterns =>
      match re.captures href with
      | some caps =>
          match fullUrl href with
          | some url =>
              some
                { platform := platform
                  url := String.ofList url
                  identifier := (caps.group 1).map String.ofList }
          | none => matchPatterns href patterns
      | none => matchPatterns href patterns

/-- The links with the values of `href` that they come from, each in the order in which they were
added. -/
structure LinkScan where
  links : List SocialMediaLink
  seenUrls : List (List Char)

/-- The body of the loop over the anchors. -/
def scanAnchor (state : LinkScan) (href : List Char) : LinkScan :=
  if href ∈ state.seenUrls then state
  else
    match matchPatterns href socialPatterns with
    | some link => { links := state.links ++ [link], seenUrls := state.seenUrls ++ [href] }
    | none => state

/-- The links of the anchors and what was seen on the way. -/
def scanAnchors (hrefs : List (List Char)) : LinkScan :=
  hrefs.foldl scanAnchor ⟨[], []⟩

/-- The social media links of a page, each once. -/
def extractSocialMediaLinks (hrefs : List (List Char)) : List SocialMediaLink :=
  (scanAnchors hrefs).links

/-! ## Platforms -/

/-- Where the profiles of a platform are. -/
structure Place where
  hosts : List (List Char)
  paths : List (List Char)

/-- The hosts that a pattern names, and the paths in front of its identifier. -/
def place : SocialPlatform → Place
  | .linkedIn => ⟨["linkedin.com".toList], ["/company/".toList, "/in/".toList, "/pub/".toList]⟩
  | .twitter => ⟨["twitter.com".toList, "x.com".toList], [['/']]⟩
  | .facebook => ⟨["facebook.com".toList], [['/']]⟩
  | .instagram => ⟨["instagram.com".toList], [['/']]⟩
  | .youTube => ⟨["youtube.com".toList], ["/channel/".toList, "/c/".toList, "/user/".toList]⟩
  | .gitHub => ⟨["github.com".toList], [['/']]⟩
  | .tikTok => ⟨["tiktok.com".toList], ["/@".toList]⟩
  | .pinterest => ⟨["pinterest.com".toList, "pinterest.co.uk".toList], [['/']]⟩
  | .snapchat => ⟨["snapchat.com".toList], ["/add/".toList]⟩
  | .reddit => ⟨["reddit.com".toList], ["/r/".toList, "/u/".toList]⟩

/-- The platforms in the order in which their patterns are tried. -/
def platforms : List SocialPlatform :=
  socialPatterns.map Prod.snd

/-- The rest of a path segment, when there is one. -/
def segment (text : List Char) : Option (List Char) :=
  if text.takeWhile isSegmentChar = [] then none else some (text.takeWhile isSegmentChar)

/-! ## The URL of an anchor -/

/-- What follows the scheme of an absolute URL. -/
def behindScheme (href : List Char) : Option (List Char) :=
  ["https://".toList, "http://".toList].findSome? fun scheme =>
    if scheme.isPrefixOf (href.map Char.toLower) then some (href.drop scheme.length) else none

/-- The host of an authority, which may have user information and a port. -/
def hostOf (authority : List Char) : List Char :=
  let host := (authority.reverse.takeWhile (· ≠ '@')).reverse
  (host.takeWhile (· ≠ ':')).map Char.toLower

/-- The identifier in a path of a platform. -/
def identifierIn (platform : SocialPlatform) (path : List Char) : Option (List Char) :=
  (place platform).paths.findSome? fun lead => (path.dropPrefix? lead).bind segment

/-- The platform and the identifier that an absolute URL itself points to, whatever its query and
its fragment have in them. -/
def ownProfile (href : List Char) : Option (SocialPlatform × List Char) :=
  (behindScheme href).bind fun rest =>
    let host := hostOf (rest.takeWhile isSegmentChar)
    let bare := (host.dropPrefix? "www.".toList).getD host
    let path := (rest.dropWhile isSegmentChar).takeWhile fun c => c ≠ '?' ∧ c ≠ '#'
    platforms.findSome? fun platform =>
      if bare ∈ (place platform).hosts then (identifierIn platform path).map (platform, ·) else none

/-! ## URLs in a text -/

/-- How a URL of a platform starts. -/
def leads (place : Place) : List (List Char) :=
  ["https://".toList, "http://".toList].flatMap fun scheme =>
    ["www.".toList, []].flatMap fun www =>
      place.hosts.flatMap fun host => place.paths.map fun path => scheme ++ (www ++ (host ++ path))

/-- The identifier of a URL of the platform at the start of a text. -/
def urlAt (platform : SocialPlatform) (text : List Char) : Option (List Char) :=
  (leads (place platform)).findSome? fun lead => (text.dropPrefix? lead).bind segment

/-- The identifier of the first URL of the platform anywhere in a text. -/
def firstUrl (platform : SocialPlatform) (text : List Char) : Option (List Char) :=
  text.tails.findSome? (urlAt platform)

/-- The first platform in the order of the patterns with a URL in a text. -/
def firstMatch (text : List Char) : Option (SocialPlatform × List Char) :=
  platforms.findSome? fun platform => (firstUrl platform text).map (platform, ·)

/-- What a link is recorded for. -/
def attribution (href : List Char) : Option (SocialPlatform × List Char) :=
  (fullUrl href).bind fun _ => firstMatch href

/-- The link that an anchor with a profile gives. -/
def profileLink (href : List Char) (profile : SocialPlatform × List Char) : SocialMediaLink where
  platform := profile.1
  url := String.ofList ((fullUrl href).getD [])
  identifier := some (String.ofList profile.2)

variable {host path re : Regex} {hosts paths : List (List Char)} {platform : SocialPlatform}
  {href text : List Char}

/-! ## The patterns -/

/-- How the start of a profile address is spelled. -/
theorem spells_urlLead (hhost : host.Spells hosts) (hpath : path.Spells paths) :
    (urlLead host path).Spells (leads ⟨hosts, paths.map ('/' :: ·)⟩) := by
  have h := (Regex.spells_lit "http".toList).seq ((Regex.spells_lit ['s']).opt.seq
    ((Regex.spells_lit "://".toList).seq ((Regex.spells_lit "www.".toList).opt.seq
      (hhost.seq ((Regex.spells_lit ['/']).seq hpath)))))
  rw [urlLead]
  convert h using 1
  simp [leads, List.map_flatMap, Function.comp_def]

/-- What the pattern of a platform captures. -/
theorem captures_urlPattern (hhost : host.Spells hosts) (hpath : path.Spells paths)
    (hplace : place platform = ⟨hosts, paths.map ('/' :: ·)⟩) (text : List Char) :
    ((urlPattern host path).captures text).map (·.group 1) = (firstUrl platform text).map some := by
  have hrun : ∀ start, (((urlPattern host path).run start).head?).map (·.group 1) =
      (urlAt platform start).map some := by
    intro start
    rw [urlPattern, (spells_urlLead hhost hpath).first_seq, urlAt, hplace, List.map_findSome?,
      List.map_findSome?]
    refine congrFun (congrArg List.findSome? (funext fun lead => ?_)) _
    rw [Function.comp_apply, Function.comp_apply]
    cases start.dropPrefix? lead with
    | none => rfl
    | some rest =>
        rw [Option.bind_some, Option.bind_some, Regex.first_group_plus_set, segment]
        split_ifs <;> rfl
  rw [Regex.captures_eq_findSome, firstUrl, List.map_findSome?, List.map_findSome?]
  exact congrFun (congrArg List.findSome? (funext hrun)) _

/-- Each pattern finds the first URL of its platform. -/
theorem captures_socialPatterns (h : (re, platform) ∈ socialPatterns) (text : List Char) :
    (re.captures text).map (·.group 1) = (firstUrl platform text).map some := by
  have hslash := Regex.spells_lit ['/']
  simp only [socialPatterns, List.mem_cons, List.not_mem_nil, or_false, Prod.mk.injEq] at h
  rcases h with ⟨rfl, rfl⟩ | ⟨rfl, rfl⟩ | ⟨rfl, rfl⟩ | ⟨rfl, rfl⟩ | ⟨rfl, rfl⟩ | ⟨rfl, rfl⟩ |
    ⟨rfl, rfl⟩ | ⟨rfl, rfl⟩ | ⟨rfl, rfl⟩ | ⟨rfl, rfl⟩
  · exact captures_urlPattern (Regex.spells_lit _) ((Regex.spells_oneOf _).seq hslash) rfl text
  · exact captures_urlPattern (Regex.spells_oneOf _) Regex.spells_empty rfl text
  · exact captures_urlPattern (Regex.spells_lit _) Regex.spells_empty rfl text
  · exact captures_urlPattern (Regex.spells_lit _) Regex.spells_empty rfl text
  · exact captures_urlPattern (Regex.spells_lit _) ((Regex.spells_oneOf _).seq hslash) rfl text
  · exact captures_urlPattern (Regex.spells_lit _) Regex.spells_empty rfl text
  · exact captures_urlPattern (Regex.spells_lit _) (Regex.spells_lit _) rfl text
  · exact captures_urlPattern ((Regex.spells_lit _).seq (Regex.spells_oneOf _)) Regex.spells_empty
      rfl text
  · exact captures_urlPattern (Regex.spells_lit _) (Regex.spells_lit _) rfl text
  · exact captures_urlPattern (Regex.spells_lit _) ((Regex.spells_oneOf _).seq hslash) rfl text

/-! ## The loops -/

/-- Which element of a list answers first. -/
theorem findSome_tagged {α β : Type*} [DecidableEq α] {list : List α} {f : α → Option β}
    {element : α} {value : β} (hmem : element ∈ list) :
    list.findSome? (fun a => (f a).map (a, ·)) = some (element, value) ↔
      f element = some value ∧ ∀ earlier ∈ list.takeWhile (· ≠ element), f earlier = none := by
  induction list with
  | nil => cases hmem
  | cons first rest ih =>
      rw [List.findSome?_cons, List.takeWhile_cons]
      by_cases hfirst : first = element
      · subst hfirst
        rw [if_neg (by simp)]
        cases hvalue : f first with
        | none =>
            -- A later occurrence has no value either.
            refine iff_of_false (fun hfound => ?_) (by simp)
            obtain ⟨a, -, ha⟩ := List.exists_of_findSome?_eq_some hfound
            obtain ⟨other, hother, heq⟩ := Option.map_eq_some_iff.mp ha
            obtain ⟨rfl, -⟩ := Prod.mk.inj heq
            rw [hvalue] at hother
            cases hother
        | some other => simp
      · rw [if_pos (by simpa using hfirst), List.forall_mem_cons, ← and_assoc, and_right_comm,
          ← ih ((List.mem_cons.mp hmem).resolve_left (Ne.symm hfirst))]
        cases f first with
        | none => simp
        | some other => simp [hfirst]

/-- The loop over the patterns records the first platform in their order with a URL in the text. -/
theorem matchPatterns_eq (patterns : List (Regex × SocialPlatform))
    (h : ∀ entry ∈ patterns, entry ∈ socialPatterns) (href : List Char) :
    matchPatterns href patterns =
      (fullUrl href).bind fun _ =>
        ((patterns.map Prod.snd).findSome? fun platform =>
          (firstUrl platform href).map (platform, ·)).map (profileLink href) := by
  induction patterns with
  | nil => cases fullUrl href <;> rfl
  | cons entry patterns ih =>
      obtain ⟨re, platform⟩ := entry
      have hcaptures := captures_socialPatterns (h _ List.mem_cons_self) href
      have hrest := ih fun other hother => h other (List.mem_cons_of_mem _ hother)
      rw [matchPatterns, List.map_cons, List.findSome?_cons]
      cases hfirst : firstUrl platform href with
      | none =>
          rw [hfirst, Option.map_none, Option.map_eq_none_iff] at hcaptures
          rw [hcaptures]
          exact hrest
      | some identifier =>
          rw [hfirst, Option.map_some, Option.map_eq_some_iff] at hcaptures
          obtain ⟨caps, hcaps, hgroup⟩ := hcaptures
          rw [hcaps]
          dsimp only
          cases hurl : fullUrl href with
          | none =>
              rw [hrest, hurl]
              rfl
          | some url =>
              rw [hgroup]
              simp [profileLink, hurl]

/-- The loop over the patterns finds the attribution. -/
theorem matchPatterns_socialPatterns (href : List Char) :
    matchPatterns href socialPatterns = (attribution href).map (profileLink href) := by
  rw [matchPatterns_eq socialPatterns (fun entry h => h), attribution, firstMatch, platforms]
  cases fullUrl href <;> rfl

/-- What the loop has done with the first anchors: there is one link for each distinct `href` that
is attributed. -/
structure Scanned (hrefs : List (List Char)) (state : LinkScan) : Prop where
  seen : state.seenUrls = (hrefs.filter fun href => (attribution href).isSome).eraseDups
  links : state.links.map some =
    state.seenUrls.map fun href => (attribution href).map (profileLink href)

/-- The addresses seen are those that were attributed. -/
theorem Scanned.mem_seenUrls {hrefs : List (List Char)} {state : LinkScan}
    (h : Scanned hrefs state) :
    href ∈ state.seenUrls ↔ href ∈ hrefs ∧ (attribution href).isSome := by
  rw [h.seen, List.mem_eraseDups, List.mem_filter]

/-- One link keeps the account of the links. -/
theorem scanned_scanAnchor {hrefs : List (List Char)} {state : LinkScan}
    (h : Scanned hrefs state) (href : List Char) :
    Scanned (hrefs ++ [href]) (scanAnchor state href) := by
  rw [scanAnchor, matchPatterns_socialPatterns]
  cases hprofile : attribution href with
  | none =>
      have hfilter : [href].filter (fun href => (attribution href).isSome) = [] := by
        simp [hprofile]
      have hkeep : Scanned (hrefs ++ [href]) state := by
        refine ⟨?_, h.links⟩
        rw [List.filter_append, hfilter, List.append_nil, h.seen]
      split_ifs <;> exact hkeep
  | some profile =>
      have hfilter : [href].filter (fun href => (attribution href).isSome) = [href] := by
        simp [hprofile]
      by_cases hseen : href ∈ state.seenUrls
      · rw [if_pos hseen]
        refine ⟨?_, h.links⟩
        rw [h.seen, List.mem_eraseDups] at hseen
        rw [List.filter_append, hfilter, Distinct.eraseDups_concat, if_pos hseen, h.seen]
      · rw [if_neg hseen]
        constructor
        · rw [h.seen, List.mem_eraseDups] at hseen
          show state.seenUrls ++ [href] = _
          rw [List.filter_append, hfilter, Distinct.eraseDups_concat, if_neg hseen, h.seen]
        · show (state.links ++ [profileLink href profile]).map some =
            (state.seenUrls ++ [href]).map _
          rw [List.map_append, List.map_append, h.links]
          simp [hprofile]

/-- The loop over the links keeps their account. -/
theorem scanned_scanAnchors (hrefs : List (List Char)) : Scanned hrefs (scanAnchors hrefs) := by
  induction hrefs using List.reverseRecOn with
  | nil => exact ⟨rfl, rfl⟩
  | append_singleton hrefs href ih =>
      rw [scanAnchors, List.foldl_append]
      exact scanned_scanAnchor ih href

/-- The pairs of a list with its values. -/
theorem mem_zip_iff {α β : Type*} {list : List α} {values : List β} {f : α → Option β}
    (h : values.map some = list.map f) {a : α} {b : β} :
    (a, b) ∈ list.zip values ↔ a ∈ list ∧ f a = some b := by
  induction list generalizing values with
  | nil => simp
  | cons first rest ih =>
      cases values with
      | nil => cases h
      | cons value values =>
          obtain ⟨hfirst, hrest⟩ := List.cons.inj h
          rw [List.zip_cons_cons, List.mem_cons, ih hrest, List.mem_cons, Prod.mk.injEq]
          constructor
          · rintro (⟨rfl, rfl⟩ | ⟨hmem, hvalue⟩)
            · exact ⟨Or.inl rfl, hfirst.symm⟩
            · exact ⟨Or.inr hmem, hvalue⟩
          · rintro ⟨rfl | hmem, hvalue⟩
            · exact Or.inl ⟨rfl, (Option.some.inj (hfirst.trans hvalue)).symm⟩
            · exact Or.inr ⟨hmem, hvalue⟩

/-- The links stand beside the values that they come from. -/
theorem mem_zip_scanAnchors {hrefs : List (List Char)} {link : SocialMediaLink} :
    (href, link) ∈ (scanAnchors hrefs).seenUrls.zip (extractSocialMediaLinks hrefs) ↔
      href ∈ hrefs ∧ (attribution href).map (profileLink href) = some link := by
  have hscanned := scanned_scanAnchors hrefs
  rw [extractSocialMediaLinks, mem_zip_iff hscanned.links, hscanned.mem_seenUrls, and_assoc]
  refine and_congr_right fun _ => and_iff_right_of_imp fun hlink => ?_
  obtain ⟨profile, hprofile, -⟩ := Option.map_eq_some_iff.mp hlink
  rw [hprofile]
  rfl

/-! ## Attribution -/

/-- The links of a page, beside the values of `href` that they come from, are those of the hosts
that these point to. -/
structure Attributed (hrefs recorded : List (List Char)) (links : List SocialMediaLink) : Prop where
  once : recorded.Nodup ∧ links.length = recorded.length
  of_own_host : ∀ entry ∈ recorded.zip links, entry.1 ∈ hrefs ∧ ∃ identifier,
    ownProfile entry.1 = some (entry.2.platform, identifier) ∧
      entry.2.identifier = some (String.ofList identifier)
  recorded : ∀ href ∈ hrefs, ∀ platform identifier,
    ownProfile href = some (platform, identifier) →
      ∃ link, (href, link) ∈ recorded.zip links ∧ link.platform = platform

/-- It starts with one slash. -/
def RootRelative (href : List Char) : Prop :=
  "/".toList.isPrefixOf href ∧ ¬"//".toList.isPrefixOf href

/-- The first URL of the platform that an `href` points to is the one that it points to, and none of
a platform that is tried earlier stands in it. One that points to no platform has no URL of a
platform in it, or is relative to the root. -/
def PointsToItsOwn (href : List Char) : Prop :=
  match ownProfile href with
  | some (platform, identifier) =>
      firstUrl platform href = some identifier ∧
        ∀ earlier ∈ platforms.takeWhile (· ≠ platform), firstUrl earlier href = none
  | none => RootRelative href ∨ ∀ platform, firstUrl platform href = none

/-- Every platform is in the list. -/
theorem mem_platforms (platform : SocialPlatform) : platform ∈ platforms := by
  cases platform <;> decide

/-- Only a link that is relative to the root is left out. -/
theorem fullUrl_eq_none_iff : fullUrl href = none ↔ RootRelative href := by
  unfold fullUrl RootRelative
  constructor
  · intro h
    split_ifs at h with hhttp hslashes hslash
    exact ⟨hslash, hslashes⟩
  · rintro ⟨hslash, hslashes⟩
    obtain ⟨rest, rfl⟩ := List.isPrefixOf_iff_prefix.mp hslash
    rw [if_neg (by simp), if_neg hslashes, if_pos hslash]

/-- An absolute URL is not relative to the root. -/
theorem fullUrl_of_ownProfile {profile : SocialPlatform × List Char}
    (h : ownProfile href = some profile) : fullUrl href ≠ none := by
  intro hnone
  obtain ⟨rest, hbehind, -⟩ := Option.bind_eq_some_iff.mp h
  obtain ⟨scheme, hscheme, hlead⟩ := List.exists_of_findSome?_eq_some hbehind
  obtain ⟨tail, rfl⟩ := List.isPrefixOf_iff_prefix.mp (fullUrl_eq_none_iff.mp hnone).1
  have hfalse : scheme.isPrefixOf (("/".toList ++ tail).map Char.toLower) = false := by
    rw [List.mem_pair] at hscheme
    rcases hscheme with rfl | rfl <;> rfl
  rw [if_neg (by rw [hfalse]; exact Bool.false_ne_true)] at hlead
  cases hlead

/-- A link is attributed to what it points to exactly if it does so itself. -/
theorem attribution_eq_ownProfile_iff :
    attribution href = ownProfile href ↔ PointsToItsOwn href := by
  unfold PointsToItsOwn
  cases hown : ownProfile href with
  | none =>
      have hmatch : firstMatch href = none ↔ ∀ platform, firstUrl platform href = none := by
        rw [firstMatch, List.findSome?_eq_none_iff]
        simp only [Option.map_eq_none_iff]
        exact ⟨fun h platform => h platform (mem_platforms platform),
          fun h platform _ => h platform⟩
      show attribution href = none ↔ RootRelative href ∨ ∀ platform, firstUrl platform href = none
      rw [attribution, ← fullUrl_eq_none_iff, ← hmatch]
      cases fullUrl href <;> simp
  | some profile =>
      obtain ⟨platform, identifier⟩ := profile
      show attribution href = some (platform, identifier) ↔ _
      obtain ⟨url, hurl⟩ := Option.ne_none_iff_exists'.mp (fullUrl_of_ownProfile hown)
      rw [attribution, hurl, Option.bind_some]
      exact findSome_tagged (mem_platforms platform)

/-- The only answer is found first. -/
theorem findSome_eq_of_unique {α β : Type*} {list : List α} {f : α → Option β} {a : α} {b : β}
    (hmem : a ∈ list) (ha : f a = some b) (h : ∀ other ∈ list, f other = none ∨ f other = some b) :
    list.findSome? f = some b := by
  cases hfound : list.findSome? f with
  | none =>
      rw [List.findSome?_eq_none_iff.mp hfound a hmem] at ha
      cases ha
  | some value =>
      obtain ⟨other, hother, hvalue⟩ := List.exists_of_findSome?_eq_some hfound
      rcases h other hother with hnone | hsome
      · rw [hnone] at hvalue
        cases hvalue
      · rw [← hvalue, hsome]

/-- How a text starts where a profile address is. -/
theorem exists_of_urlAt {identifier : List Char} (h : urlAt platform text = some identifier) :
    ∃ scheme ∈ ["https://".toList, "http://".toList], ∃ www ∈ ["www.".toList, []],
      ∃ host ∈ (place platform).hosts, ∃ path ∈ (place platform).paths, ∃ rest,
        text = scheme ++ (www ++ host ++ (path ++ rest)) ∧ segment rest = some identifier := by
  obtain ⟨lead, hlead, hrest⟩ := List.exists_of_findSome?_eq_some h
  obtain ⟨rest, hdrop, hsegment⟩ := Option.bind_eq_some_iff.mp hrest
  obtain ⟨front, htext, hfront⟩ := List.dropPrefix?_eq_some_iff.mp hdrop
  rw [eq_of_beq hfront] at htext
  obtain ⟨scheme, hscheme, hlead⟩ := List.mem_flatMap.mp hlead
  obtain ⟨www, hwww, hlead⟩ := List.mem_flatMap.mp hlead
  obtain ⟨host, hhost, hlead⟩ := List.mem_flatMap.mp hlead
  obtain ⟨path, hpath, rfl⟩ := List.mem_map.mp hlead
  refine ⟨scheme, hscheme, www, hwww, host, hhost, path, hpath, rest, ?_, hsegment⟩
  rw [htext]
  simp only [List.append_assoc]

/-- What stands behind the scheme. -/
theorem behindScheme_append {scheme : List Char}
    (h : scheme ∈ ["https://".toList, "http://".toList]) (rest : List Char) :
    behindScheme (scheme ++ rest) = some rest := by
  rw [List.mem_pair] at h
  rcases h with rfl | rfl <;> rfl

/-- The hosts of a platform are its own. -/
theorem hosts_facts (platform : SocialPlatform) :
    ∀ host ∈ (place platform).hosts, (∀ other ∈ platforms, host ∈ (place other).hosts →
        other = platform) ∧
      ∀ www ∈ ["www.".toList, []], (∀ c ∈ www ++ host, isSegmentChar c = true) ∧
        hostOf (www ++ host) = www ++ host ∧
        ((www ++ host).dropPrefix? "www.".toList).getD (www ++ host) = host := by
  cases platform <;> decide

/-- No path of a platform starts another one. -/
theorem paths_facts (platform : SocialPlatform) :
    ∀ path ∈ (place platform).paths, path.head? = some '/' ∧ (∀ c ∈ path, c ≠ '?' ∧ c ≠ '#') ∧
      ∀ other ∈ (place platform).paths, other.isPrefixOf path ∨ path.isPrefixOf other →
        other = path := by
  cases platform <;> decide

/-- The identifier stands behind the path. -/
theorem identifierIn_append {identifier : List Char} {path rest : List Char}
    (hpath : path ∈ (place platform).paths) (h : segment rest = some identifier) :
    identifierIn platform (path ++ rest) = some identifier := by
  refine findSome_eq_of_unique hpath ?_ fun other hother => ?_
  · rw [List.dropPrefix?_append_of_beq rest (BEq.refl path), Option.bind_some, h]
  · cases hdrop : (path ++ rest).dropPrefix? other with
    | none => exact Or.inl rfl
    | some tail =>
        right
        obtain ⟨front, htext, hfront⟩ := List.dropPrefix?_eq_some_iff.mp hdrop
        rw [eq_of_beq hfront] at htext
        have hsame : other = path := by
          apply (paths_facts platform path hpath).2.2 other hother
          rw [List.isPrefixOf_iff_prefix, List.isPrefixOf_iff_prefix]
          exact List.prefix_or_prefix_of_prefix ⟨tail, htext.symm⟩ ⟨rest, rfl⟩
        rw [hsame] at htext
        rw [Option.bind_some, ← List.append_cancel_left htext, h]

/-- A URL that is written as a pattern has it, at the start of an `href`, is its own. -/
theorem ownProfile_of_urlAt {identifier : List Char} (h : urlAt platform href = some identifier) :
    ownProfile href = some (platform, identifier) := by
  obtain ⟨scheme, hscheme, www, hwww, host, hhost, path, hpath, rest, rfl, hsegment⟩ :=
    exists_of_urlAt h
  obtain ⟨hunique, hclean⟩ := hosts_facts platform host hhost
  obtain ⟨hauthority, hhostOf, hbare⟩ := hclean www hwww
  obtain ⟨hslash, hends, -⟩ := paths_facts platform path hpath
  obtain ⟨tail, hpathTail⟩ := List.head?_eq_some_iff.mp hslash
  have hstop : isSegmentChar '/' = false := by decide
  have htake : (www ++ host ++ (path ++ rest)).takeWhile isSegmentChar = www ++ host := by
    rw [List.takeWhile_append_of_pos hauthority, hpathTail, List.cons_append,
      List.takeWhile_cons_of_neg (by simp [hstop]), List.append_nil]
  have hdrop : (www ++ host ++ (path ++ rest)).dropWhile isSegmentChar = path ++ rest := by
    rw [List.dropWhile_append_of_pos hauthority, hpathTail, List.cons_append,
      List.dropWhile_cons_of_neg (by simp [hstop])]
  have hpathEnd : (path ++ rest).takeWhile (fun c => decide (c ≠ '?' ∧ c ≠ '#')) =
      path ++ rest.takeWhile fun c => decide (c ≠ '?' ∧ c ≠ '#') :=
    List.takeWhile_append_of_pos fun c hc => decide_eq_true (hends c hc)
  have hrest : segment (rest.takeWhile fun c => decide (c ≠ '?' ∧ c ≠ '#')) = some identifier := by
    have hchars : ∀ c, decide (isSegmentChar c = true ∧ decide (c ≠ '?' ∧ c ≠ '#') = true) =
        isSegmentChar c := by
      intro c
      rw [Bool.eq_iff_iff, decide_eq_true_iff]
      refine and_iff_left_of_imp fun hc => ?_
      simp only [isSegmentChar, Bool.not_eq_true', Bool.or_eq_false_iff, beq_eq_false_iff_ne] at hc
      exact decide_eq_true ⟨hc.1.2, hc.2⟩
    rw [segment, List.takeWhile_takeWhile, funext hchars]
    exact hsegment
  rw [ownProfile, behindScheme_append hscheme, Option.bind_some, htake, hdrop, hpathEnd]
  dsimp only
  rw [hhostOf, hbare]
  refine findSome_eq_of_unique (mem_platforms platform) ?_ fun other hother => ?_
  · rw [if_pos hhost, identifierIn_append hpath hrest, Option.map_some]
  · by_cases hmem : host ∈ (place other).hosts
    · rw [hunique other hother hmem, if_pos hhost, identifierIn_append hpath hrest,
        Option.map_some]
      exact Or.inr rfl
    · rw [if_neg hmem]
      exact Or.inl rfl

/-- So it is enough that no URL of a platform that is tried earlier stands in it. -/
theorem pointsToItsOwn_of_urlAt {identifier : List Char}
    (h : urlAt platform href = some identifier)
    (hearlier : ∀ earlier ∈ platforms.takeWhile (· ≠ platform), firstUrl earlier href = none) :
    PointsToItsOwn href := by
  have hfirst : firstUrl platform href = some identifier := by
    cases href with
    | nil => rw [firstUrl, List.tails, List.findSome?_cons, h]
    | cons c rest => rw [firstUrl, List.tails, List.findSome?_cons, h]
  rw [PointsToItsOwn, ownProfile_of_urlAt h]
  exact ⟨hfirst, hearlier⟩

/-- The links are attributed to the hosts that they point to exactly if each `href` points to its
own. -/
theorem social_links_attributed_iff (hrefs : List (List Char)) :
    Attributed hrefs (scanAnchors hrefs).seenUrls (extractSocialMediaLinks hrefs) ↔
      ∀ href ∈ hrefs, PointsToItsOwn href := by
  constructor
  · intro h href hmem
    rw [← attribution_eq_ownProfile_iff]
    cases hattribution : attribution href with
    | none =>
        cases hown : ownProfile href with
        | none => rfl
        | some profile =>
            obtain ⟨link, hlink, -⟩ := h.recorded href hmem profile.1 profile.2 hown
            have hsome := (mem_zip_scanAnchors.mp hlink).2
            rw [hattribution] at hsome
            cases hsome
    | some profile =>
        have hlink : (href, profileLink href profile) ∈
            (scanAnchors hrefs).seenUrls.zip (extractSocialMediaLinks hrefs) :=
          mem_zip_scanAnchors.mpr ⟨hmem, by rw [hattribution, Option.map_some]⟩
        obtain ⟨-, identifier, hown, hidentifier⟩ := h.of_own_host _ hlink
        have heq : profile.2 = identifier := String.ofList_inj.mp (Option.some.inj hidentifier)
        rw [hown, ← heq]
        rfl
  · intro h
    have hown : ∀ href ∈ hrefs, attribution href = ownProfile href := fun href hmem =>
      attribution_eq_ownProfile_iff.mpr (h href hmem)
    have hscanned := scanned_scanAnchors hrefs
    refine ⟨⟨?_, ?_⟩, ?_, ?_⟩
    · rw [hscanned.seen]
      exact Distinct.nodup_eraseDups _
    · have hlength := congrArg List.length hscanned.links
      rwa [List.length_map, List.length_map] at hlength
    · rintro ⟨href, link⟩ hlink
      obtain ⟨hmem, hsome⟩ := mem_zip_scanAnchors.mp hlink
      obtain ⟨profile, hprofile, rfl⟩ := Option.map_eq_some_iff.mp hsome
      refine ⟨hmem, profile.2, ?_, rfl⟩
      rw [← hown href hmem, hprofile]
      rfl
    · intro href hmem platform identifier hprofile
      refine ⟨profileLink href (platform, identifier), mem_zip_scanAnchors.mpr ⟨hmem, ?_⟩, rfl⟩
      rw [hown href hmem, hprofile, Option.map_some]

/-- A link to share a page is recorded as one to the page. -/
theorem share_link_recorded_for_shared_page :
    extractSocialMediaLinks ["https://www.facebook.com/sharer?u=https://x.com/acme".toList] =
        [⟨.twitter, "https://www.facebook.com/sharer?u=https://x.com/acme", some "acme"⟩] ∧
      ¬Attributed ["https://www.facebook.com/sharer?u=https://x.com/acme".toList]
        (scanAnchors ["https://www.facebook.com/sharer?u=https://x.com/acme".toList]).seenUrls
        (extractSocialMediaLinks
          ["https://www.facebook.com/sharer?u=https://x.com/acme".toList]) := by
  constructor
  · decide +kernel
  · intro h
    have hown : ownProfile "https://www.facebook.com/sharer?u=https://x.com/acme".toList =
        some (.facebook, "sharer".toList) := by
      decide +kernel
    have hattribution : attribution "https://www.facebook.com/sharer?u=https://x.com/acme".toList =
        some (.twitter, "acme".toList) := by
      decide +kernel
    obtain ⟨link, hlink, hplatform⟩ := h.recorded _ (List.mem_singleton_self _) _ _ hown
    have hrecorded := (mem_zip_scanAnchors.mp hlink).2
    rw [hattribution, Option.map_some, Option.some_inj] at hrecorded
    rw [← hrecorded] at hplatform
    cases hplatform

end DomainStatus.Social
