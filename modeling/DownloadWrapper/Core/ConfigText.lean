import DownloadWrapper.Core.RequestText

/-!
# The configuration as text

`to_json` writes every field of a configuration, and `from_json` reads all of them back, so that nothing
is left of the configuration it reads over. On the way a text ends at its first NUL and an `int32_t`
field passes through an `int64_t`.
-/

namespace DownloadWrapper

namespace Config

def toJson (c : Config) : List (String × Json) :=
  [("connect_timeout", .ofInt c.connectTimeoutSeconds),
    ("request_timeout", .ofInt c.requestTimeoutSeconds),
    ("low_speed_limit", .ofInt c.lowSpeedLimitBps), ("low_speed_time", .ofInt c.lowSpeedTime),
    ("max_redirect", .ofInt c.maxRedirect), ("proxy", .string c.proxy),
    ("proxy_username", .string c.proxyUsername), ("proxy_password", .string c.proxyPassword),
    ("user_agent", .string c.userAgent), ("verify_ssl", .bool c.verifySsl),
    ("ca_bundle", .string c.caBundle), ("max_retries", .ofInt c.maxRetries),
    ("default_parts", .ofInt c.defaultParts), ("min_size_for_split", .ofInt c.minSizeForSplit),
    ("listen_port", .ofInt c.listenPort), ("max_concurrent", .ofInt c.maxConcurrentDownloads),
    ("dl_rate_limit", .ofInt c.downloadRateLimit), ("ul_rate_limit", .ofInt c.uploadRateLimit),
    ("seed_ratio", .number none c.seedRatioLimit), ("log_level", .ofInt (castInt c.logLevel)),
    ("work_dir", .string c.workDir), ("client_id", .string c.clientId),
    ("save_path", .string c.savePath), ("trackers", .array (c.trackers.map .string)),
    ("allow_mobile_data", .bool c.allowMobileData), ("network_type", .ofInt c.networkType)]

def toJsonString (serialize : Json → String) (c : Config) : String := serialize (.object c.toJson)

/-- The configuration with every text cut at its first NUL and every `int32_t` wrapped around. -/
def normal (c : Config) : Config :=
  { c with
    connectTimeoutSeconds := castInt c.connectTimeoutSeconds
    requestTimeoutSeconds := castInt c.requestTimeoutSeconds
    lowSpeedTime := castInt c.lowSpeedTime
    maxRedirect := castInt c.maxRedirect
    proxy := cStr c.proxy
    proxyUsername := cStr c.proxyUsername
    proxyPassword := cStr c.proxyPassword
    userAgent := cStr c.userAgent
    caBundle := cStr c.caBundle
    maxRetries := castInt c.maxRetries
    defaultParts := castInt c.defaultParts
    listenPort := castInt c.listenPort
    maxConcurrentDownloads := castInt c.maxConcurrentDownloads
    logLevel := castInt c.logLevel
    workDir := cStr c.workDir
    clientId := cStr c.clientId
    savePath := cStr c.savePath
    trackers := c.trackers.map cStr
    networkType := castInt c.networkType }

theorem fromJson_toJson (c d : Config) : fromJson c.toJson d = c.normal := by
  simp only [fromJson, extractInt32, extractInt64, extractString, extractBool, extractDouble,
    extractStrings, toJson, ifContains_cons, Json.ofInt, normal, castInt, String.reduceEq, if_true,
    if_false, List.filterMap_map]
  congr 1
  exact congrFun List.filterMap_eq_map' c.trackers

theorem nulFree_cStr (s : String) : NulFree (cStr s) := by
  intro c hc
  rw [cStr, String.toList_ofList] at hc
  simpa using List.mem_takeWhile_imp hc

def int32s (c : Config) : List Int :=
  [c.connectTimeoutSeconds, c.requestTimeoutSeconds, c.lowSpeedTime, c.maxRedirect, c.maxRetries,
    c.defaultParts, c.listenPort, c.maxConcurrentDownloads, c.logLevel, c.networkType]

def texts (c : Config) : List String :=
  [c.proxy, c.proxyUsername, c.proxyPassword, c.userAgent, c.caBundle, c.workDir, c.clientId,
    c.savePath] ++ c.trackers

/-- A configuration as the source has it: no text holds a NUL, and every number fits into its type. -/
structure Plain (c : Config) : Prop where
  int32 : ∀ n ∈ c.int32s, castInt n = n
  text : ∀ s ∈ c.texts, NulFree s

theorem normal_eq_self_iff (c : Config) : c.normal = c ↔ c.Plain := by
  have hint32s : c.normal.int32s = c.int32s.map castInt := rfl
  have htexts : c.normal.texts = c.texts.map cStr := by simp [texts, normal]
  constructor
  · intro hsame
    rw [hsame] at hint32s htexts
    refine ⟨List.map_inj_left.mp (hint32s.symm.trans (List.map_id _).symm), fun s hs => ?_⟩
    have hcut : cStr s = s := List.map_inj_left.mp (htexts.symm.trans (List.map_id _).symm) s hs
    exact hcut ▸ nulFree_cStr s
  · intro hplain
    have hnumbers : c.normal.int32s = c.int32s :=
      hint32s.trans ((List.map_congr_left hplain.int32).trans (List.map_id _))
    have hcut : ∀ s ∈ c.texts, cStr s = s := fun s hs => (hplain.text s hs).cStr_eq
    have hwords : c.normal.texts = c.texts :=
      htexts.trans ((List.map_congr_left hcut).trans (List.map_id _))
    simp only [int32s, normal, List.cons.injEq, and_true] at hnumbers
    simp only [texts, normal, List.cons_append, List.nil_append, List.cons.injEq] at hwords
    simp only [normal, hnumbers, hwords]

section Reading

variable {obj : List (String × Json)}

theorem castInt_extractInt32 {key : String} {out : Int} (hout : castInt out = out) :
    castInt (extractInt32 obj key out) = extractInt32 obj key out := by
  rw [extractInt32]
  split
  · exact castInt_castInt _
  · exact hout

theorem nulFree_extractString {key out : String} (hout : NulFree out) :
    NulFree (extractString obj key out) := by
  rw [extractString]
  split
  · exact nulFree_cStr _
  · exact hout

theorem nulFree_extractStrings {key : String} {out : List String} (hout : ∀ s ∈ out, NulFree s) :
    ∀ s ∈ extractStrings obj key out, NulFree s := by
  rw [extractStrings]
  split
  · intro s hs
    obtain ⟨value, -, hvalue⟩ := List.mem_filterMap.mp hs
    split at hvalue
    · exact Option.some.inj hvalue ▸ nulFree_cStr _
    · simp at hvalue
  · exact hout

theorem plain_fromJson_iff {d : Config} (hd : d.Plain) :
    (fromJson obj d).Plain ↔ castInt (fromJson obj d).logLevel = (fromJson obj d).logLevel := by
  constructor
  · exact fun hplain => hplain.int32 _ (by simp [int32s])
  · intro hlevel
    refine ⟨fun n hn => ?_, fun s hs => ?_⟩
    · have hbase : ∀ n ∈ d.int32s, castInt n = n := hd.int32
      simp only [int32s, List.forall_mem_cons] at hbase
      simp only [int32s, List.mem_cons, List.not_mem_nil, or_false] at hn
      rcases hn with rfl | rfl | rfl | rfl | rfl | rfl | rfl | rfl | rfl | rfl
      all_goals first
        | exact hlevel
        | exact castInt_extractInt32 (by simp only [hbase])
    · have hbase : ∀ s ∈ d.texts, NulFree s := hd.text
      simp only [texts, List.cons_append, List.nil_append, List.forall_mem_cons] at hbase
      simp only [texts, List.cons_append, List.nil_append, List.mem_cons] at hs
      rcases hs with rfl | rfl | rfl | rfl | rfl | rfl | rfl | rfl | htracker
      all_goals first
        | exact nulFree_extractString (by simp only [hbase])
        | exact nulFree_extractStrings hbase.2.2.2.2.2.2.2.2 s htracker

end Reading

theorem plain_defaults : defaults.Plain where
  int32 := by decide
  text := by decide

def travelRequest : List (String × Json) :=
  [("client_id", .string "tv"), ("network_type", .ofInt 2), ("seed_ratio", .number none (1 / 2)),
    ("trackers", .array [.string "udp://t:80", .null, .string ""])]

def travelConfig : Config :=
  { defaults with
    clientId := "tv", networkType := 2, seedRatioLimit := 1 / 2, trackers := ["udp://t:80", ""] }

def travelText : String :=
  "\x7b\"connect_timeout\":30,\"request_timeout\":300,\"low_speed_limit\":1024,\"low_speed_time\":60," ++
    "\"max_redirect\":5,\"proxy\":\"\",\"proxy_username\":\"\",\"proxy_password\":\"\"," ++
    "\"user_agent\":\"\",\"verify_ssl\":true,\"ca_bundle\":\"\",\"max_retries\":3,\"default_parts\":4," ++
    "\"min_size_for_split\":1048576,\"listen_port\":6881,\"max_concurrent\":5,\"dl_rate_limit\":0," ++
    "\"ul_rate_limit\":0,\"seed_ratio\":5E-1,\"log_level\":1,\"work_dir\":\"\",\"client_id\":\"tv\"," ++
    "\"save_path\":\".\",\"trackers\":[\"udp://t:80\",\"\"],\"allow_mobile_data\":false," ++
    "\"network_type\":2\x7d"

def travelParse (text : String) : ConfigText :=
  if text = travelText then .value (.object travelConfig.toJson) else .malformed

end Config

end DownloadWrapper
