import DownloadWrapper.Core.Requests
import DownloadWrapper.Store.TaskRow

/-!
# Requests as text

The parameters of a request as `to_json` writes them: what is empty is left out, and the decoder finds
the default there. A file priority has its index as a key.
-/

namespace DownloadWrapper

open SortedMap

def presentMembers (fields : List (String × Option Json)) : List (String × Json) :=
  fields.filterMap fun field => field.2.map (field.1, ·)

def nonemptyText (s : String) : Option Json := if s = "" then none else some (.string s)

def raisedFlag (b : Bool) : Option Json := if b then some (.bool true) else none

def nonemptyArray (elems : List Json) : Option Json := if elems = [] then none else some (.array elems)

def priorityMembers (priorities : List (Int × Int)) : List (String × Json) :=
  priorities.map fun entry => (toString entry.1, Json.ofInt entry.2)

/-- The fields of `to_json`, in the order in which it writes them. -/
def TaskParams.fields (p : TaskParams) : List (String × Option Json) :=
  [("client_id", some (.string p.clientId)), ("protocol", some (.ofInt p.protocol.toInt)),
    ("natural_key", some (.string p.naturalKey)), ("save_path", nonemptyText p.savePath),
    ("url", nonemptyText p.url), ("info_hash", nonemptyText p.infoHash),
    ("magnet_link", nonemptyText p.magnetLink), ("torrent_file", nonemptyText p.torrentFile),
    ("priority", p.queuePriority.map .ofInt), ("delete_files", raisedFlag p.deleteFiles),
    ("force", raisedFlag p.force), ("file_indexes", nonemptyArray (p.fileIndexes.map .ofInt)),
    ("file_priorities",
      if p.filePriorities = [] then none else some (.object (priorityMembers p.filePriorities))),
    ("url_seeds", nonemptyArray (p.urlSeeds.map .string))]

def TaskParams.toJson (p : TaskParams) : List (String × Json) := presentMembers p.fields

def toJsonString (serialize : Json → String) (p : TaskParams) : String := serialize (.object p.toJson)

theorem ifContains_cons (k key : String) (v : Json) (obj : List (String × Json)) :
    ifContains ((k, v) :: obj) key = if k = key then some v else ifContains obj key := by
  by_cases hkey : k = key <;> simp [ifContains, hkey]

theorem ifContains_presentMembers_cons (k key : String) (v : Option Json)
    (fields : List (String × Option Json)) :
    ifContains (presentMembers ((k, v) :: fields)) key =
      if k = key then v.or (ifContains (presentMembers fields) key)
      else ifContains (presentMembers fields) key := by
  cases v with
  | none => simp [presentMembers]
  | some v =>
      have hcons : presentMembers ((k, some v) :: fields) = (k, v) :: presentMembers fields := rfl
      rw [hcons, ifContains_cons, Option.some_or]

theorem ifContains_presentMembers_of_notMem {fields : List (String × Option Json)} {key : String}
    (h : key ∉ fields.map Prod.fst) : ifContains (presentMembers fields) key = none := by
  induction fields with
  | nil => rfl
  | cons field fields ih =>
      rw [List.map_cons, List.mem_cons, not_or] at h
      rw [ifContains_presentMembers_cons, if_neg (Ne.symm h.1)]
      exact ih h.2

/-- A field that is there under its own key is found, and one that is left out is not. -/
theorem ifContains_presentMembers {fields : List (String × Option Json)}
    (hnodup : (fields.map Prod.fst).Nodup) {key : String} {v : Option Json} (hmem : (key, v) ∈ fields) :
    ifContains (presentMembers fields) key = v := by
  induction fields with
  | nil => cases hmem
  | cons field fields ih =>
      rw [List.map_cons, List.nodup_cons] at hnodup
      rw [ifContains_presentMembers_cons]
      rcases List.mem_cons.mp hmem with rfl | hrest
      · rw [if_pos rfl, ifContains_presentMembers_of_notMem hnodup.1, Option.or_none]
      · have hne : field.1 ≠ key := by
          intro heq
          exact hnodup.1 (heq ▸ List.mem_map_of_mem (f := Prod.fst) hrest)
        rw [if_neg hne]
        exact ih hnodup.2 hrest

section Fields

variable {obj : List (String × Json)} {key : String}

theorem extractString_nonemptyText {s : String} (h : ifContains obj key = nonemptyText s) (hs : NulFree s) :
    extractString obj key "" = s := by
  rw [extractString, h, nonemptyText]
  by_cases hempty : s = ""
  · simp [hempty]
  · simp [hempty, hs.cStr_eq]

theorem extractString_some {s out : String} (h : ifContains obj key = some (.string s)) (hs : NulFree s) :
    extractString obj key out = s := by
  simp only [extractString, h, hs.cStr_eq]

theorem extractBool_raisedFlag {b : Bool} (h : ifContains obj key = raisedFlag b) :
    extractBool obj key false = b := by
  cases b <;> simp [extractBool, h, raisedFlag]

theorem extractInt32s_nonemptyArray {v : List Int} (h : ifContains obj key = nonemptyArray (v.map .ofInt))
    (hv : ∀ n ∈ v, inRangeInt32 n = true) : extractInt32s obj key [] = v := by
  rw [extractInt32s, h, nonemptyArray]
  cases v with
  | nil => rfl
  | cons n v =>
      have hread : ∀ m ∈ n :: v, (some (m.bmod (2 ^ 32)) : Option Int) = some m := by
        intro m hm
        have hrange := hv m hm
        simp only [inRangeInt32, Bool.and_eq_true, decide_eq_true_eq] at hrange
        exact congrArg some (Int.bmod_eq_of_le (by omega) (by omega))
      rw [if_neg (by simp)]
      simp only [List.filterMap_map]
      exact (List.filterMap_congr hread).trans List.filterMap_some

theorem extractStrings_nonemptyArray {v : List String} (h : ifContains obj key = nonemptyArray (v.map .string))
    (hv : ∀ s ∈ v, NulFree s) : extractStrings obj key [] = v := by
  rw [extractStrings, h, nonemptyArray]
  cases v with
  | nil => rfl
  | cons s v =>
      have hread : ∀ t ∈ s :: v, some (cStr t) = some t := fun t ht => congrArg some (hv t ht).cStr_eq
      rw [if_neg (by simp)]
      simp only [List.filterMap_map]
      exact (List.filterMap_congr hread).trans List.filterMap_some

theorem readQueuePriority_some {priority : Option Int}
    (h : ifContains obj "priority" = priority.map .ofInt)
    (hpriority : ∀ n, priority = some n → inRangeInt32 n = true) :
    readQueuePriority obj none = priority := by
  rw [readQueuePriority, h]
  cases priority with
  | none => rfl
  | some n => simp [Json.ofInt, hpriority n rfl]

theorem foldl_readFilePriority {priorities : List (Int × Int)} (h : PrioritiesInRange priorities) :
    (priorityMembers priorities).foldl readFilePriority [] = priorities := by
  rw [priorityMembers, List.foldl_map]
  have hread : ∀ (done : List (Int × Int)), ∀ entry ∈ priorities,
      readFilePriority done (toString entry.1, Json.ofInt entry.2) =
        insertOrAssign entry.1 entry.2 done := by
    intro done entry hentry
    obtain ⟨hindex, hrange, hlevel⟩ := h.2 entry hentry
    simp only [readFilePriority, wholeInt32_toString hrange, Json.ofInt, hindex, hlevel, and_self, if_true]
  rw [List.foldl_ext _ _ _ fun done entry hentry => hread done entry hentry]
  exact h.1.foldl_insertOrAssign

end Fields

/-- Parameters as the source has them: no text holds a NUL, every number fits into its type, and the
priorities are a map from indexes to levels. -/
structure TaskParams.Plain (p : TaskParams) : Prop where
  clientId : NulFree p.clientId
  naturalKey : NulFree p.naturalKey
  savePath : NulFree p.savePath
  url : NulFree p.url
  infoHash : NulFree p.infoHash
  magnetLink : NulFree p.magnetLink
  torrentFile : NulFree p.torrentFile
  urlSeeds : ∀ s ∈ p.urlSeeds, NulFree s
  fileIndexes : ∀ n ∈ p.fileIndexes, inRangeInt32 n = true
  filePriorities : PrioritiesInRange p.filePriorities
  queuePriority : ∀ n, p.queuePriority = some n → inRangeInt32 n = true

theorem nodup_fields (p : TaskParams) : (p.fields.map Prod.fst).Nodup := by
  have hkeys : p.fields.map Prod.fst =
      ["client_id", "protocol", "natural_key", "save_path", "url", "info_hash", "magnet_link",
        "torrent_file", "priority", "delete_files", "force", "file_indexes", "file_priorities",
        "url_seeds"] := rfl
  rw [hkeys]
  decide

section Reading

variable {p : TaskParams}

theorem ifContains_toJson {key : String} {v : Option Json} (hmem : (key, v) ∈ p.fields) :
    ifContains p.toJson key = v := ifContains_presentMembers (nodup_fields p) hmem

theorem readFilePriorities_toJson (h : PrioritiesInRange p.filePriorities) (queuePriority : Option Int) :
    readFilePriorities p.toJson queuePriority [] = p.filePriorities := by
  have hmembers : ifContains p.toJson "file_priorities" =
      if p.filePriorities = [] then none else some (.object (priorityMembers p.filePriorities)) :=
    ifContains_toJson (by simp [TaskParams.fields])
  have holder : ifContains p.toJson "priority_file_indexes" = none :=
    ifContains_presentMembers_of_notMem (by simp [TaskParams.fields])
  rw [readFilePriorities, hmembers, holder]
  by_cases hempty : p.filePriorities = []
  · simp [hempty]
  · simp only [hempty, if_false]
    exact foldl_readFilePriority h

theorem readProtocol_toJson (p : TaskParams) : readProtocol p.toJson 0 = p.protocol.toInt := by
  have hmember : ifContains p.toJson "protocol" = some (.ofInt p.protocol.toInt) :=
    ifContains_toJson (by simp [TaskParams.fields])
  rw [readProtocol, hmember]
  cases p.protocol <;> rfl

/-- **What is written is read back**, but for the protocol, which the record takes from its value. -/
theorem fromJson_toJson (h : p.Plain) : { TaskParams.fromJson p.toJson {} with protocol := p.protocol } = p := by
  have hfield : ∀ {key v}, (key, v) ∈ p.fields → ifContains p.toJson key = v := ifContains_toJson
  have hpriority : readQueuePriority p.toJson none = p.queuePriority :=
    readQueuePriority_some (hfield (by simp [TaskParams.fields])) h.queuePriority
  have hdelete : extractBool p.toJson "delete_files" false = p.deleteFiles :=
    extractBool_raisedFlag (hfield (by simp [TaskParams.fields]))
  have hforce : extractBool p.toJson "force" false = p.force :=
    extractBool_raisedFlag (hfield (by simp [TaskParams.fields]))
  simp only [TaskParams.fromJson, hpriority, hdelete, hforce]
  rw [extractString_some (hfield (by simp [TaskParams.fields])) h.clientId,
    extractString_some (hfield (by simp [TaskParams.fields])) h.naturalKey,
    extractString_nonemptyText (hfield (by simp [TaskParams.fields])) h.savePath,
    extractString_nonemptyText (hfield (by simp [TaskParams.fields])) h.url,
    extractString_nonemptyText (hfield (by simp [TaskParams.fields])) h.infoHash,
    extractString_nonemptyText (hfield (by simp [TaskParams.fields])) h.magnetLink,
    extractString_nonemptyText (hfield (by simp [TaskParams.fields])) h.torrentFile,
    extractInt32s_nonemptyArray (hfield (by simp [TaskParams.fields])) h.fileIndexes,
    readFilePriorities_toJson h.filePriorities,
    extractStrings_nonemptyArray (hfield (by simp [TaskParams.fields])) h.urlSeeds]

end Reading

/-- **The parameters survive being written**, each of them, and whatever an object says, the priorities
that are read of it have an index and a level in range. -/
theorem parseTaskParams_toJsonString (serialize : Json → String) (parse : String → ConfigText) :
    (∀ p : TaskParams, p.Plain → parse (serialize (.object p.toJson)) = .value (.object p.toJson) →
      ∃ value q, parseTaskParams (parse (toJsonString serialize p)) = some (value, q) ∧
        protocolOf value = some p.protocol ∧ { q with protocol := p.protocol } = p) ∧
      ∀ (obj : List (String × Json)), ∀ entry ∈ (TaskParams.fromJson obj {}).filePriorities,
        0 ≤ entry.1 ∧ 0 ≤ entry.2 ∧ entry.2 ≤ 7 := by
  refine ⟨fun p hplain hlossless => ?_, fun obj entry hentry => ?_⟩
  · refine ⟨p.protocol.toInt, TaskParams.fromJson p.toJson {}, ?_, ?_, fromJson_toJson hplain⟩
    · rw [toJsonString, hlossless, parseTaskParams, readProtocol_toJson]
    · cases p.protocol <;> rfl
  · obtain ⟨hindex, -, hlevel⟩ := (prioritiesInRange_fromJson obj).2 entry hentry
    exact ⟨hindex, hlevel⟩

def seasonRequest : TaskParams where
  clientId := "tv"
  protocol := .torrent
  naturalKey := "ab"
  infoHash := "ab"
  fileIndexes := [0, 2]
  filePriorities := [(0, 4), (2, 7)]
  queuePriority := some (-1)
  force := true

def seasonText : String :=
  "\x7b\"client_id\":\"tv\",\"protocol\":1,\"natural_key\":\"ab\",\"info_hash\":\"ab\",\"priority\":-1," ++
    "\"force\":true,\"file_indexes\":[0,2],\"file_priorities\":\x7b\"0\":4,\"2\":7\x7d\x7d"

def seasonParse (text : String) : ConfigText :=
  if text = seasonText then .value (.object seasonRequest.toJson) else .malformed

theorem parseTaskParams_seasonRequest :
    ∃ value q, parseTaskParams (seasonParse (toJsonString (fun _ => seasonText) seasonRequest)) = some (value, q) ∧
      protocolOf value = some .torrent ∧ { q with protocol := .torrent } = seasonRequest := by
  have hsorted : Sorted seasonRequest.filePriorities := by simp [Sorted, seasonRequest]
  have hplain : seasonRequest.Plain := by
    refine ⟨by decide, by decide, by decide, by decide, by decide, by decide, by decide, ?_, by decide,
      ⟨hsorted, by decide⟩, ?_⟩
    · simp [seasonRequest]
    · rintro n hn
      obtain rfl : n = -1 := by simpa [seasonRequest] using hn.symm
      decide
  exact (parseTaskParams_toJsonString (fun _ => seasonText) seasonParse).1 seasonRequest hplain (if_pos rfl)

end DownloadWrapper
