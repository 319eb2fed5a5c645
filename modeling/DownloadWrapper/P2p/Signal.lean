import DownloadWrapper.Core.Config
import DownloadWrapper.Store.FileMap
import DownloadWrapper.Utils.Base64
import DownloadWrapper.Utils.IntList
import DownloadWrapper.Utils.Scanning

/-!
# Signals between peers

A peer hands over its session description and the candidates it has collected as one text, and the other
peer adds the candidates to its connection.
-/

namespace DownloadWrapper.P2p

open Base64

/-- `RTCIceCandidate`. -/
structure IceCandidate where
  candidate : String
  sdpMid : String
  sdpMlineIndex : Int
  deriving DecidableEq

def IceCandidate.entry (c : IceCandidate) : String :=
  c.candidate ++ "|" ++ c.sdpMid ++ "|" ++ toString c.sdpMlineIndex

/-- `OnIceCandidate`: `candidates_` afterwards. -/
def onIceCandidate (candidates : List String) : Option IceCandidate → List String
  | none => candidates
  | some c => candidates ++ [c.entry]

def collected (calls : List (Option IceCandidate)) : List String := calls.foldl onIceCandidate []

structure AddCandidate where
  mid : String
  mline : Int
  candidate : String
  deriving DecidableEq

/-- `std::stoi`: space in front is passed over, a sign may follow, and what stands behind the digits does
not matter; without digits, or with a value that is no `int`, it throws. -/
def stoi (s : List Char) : Option Int :=
  let s := s.dropWhile isBlankChar
  let number := if s.head? = some '+' ∧ s.tail.head? ≠ some '-' then s.tail else s
  (fromChars number).filter inRangeInt32

def splitEntry (entry : List Char) : Option (List Char × List Char × List Char) :=
  match afterFirst '|' entry with
  | none => none
  | some rest =>
      match afterFirst '|' rest with
      | none => none
      | some line => some (entry.takeWhile (· ≠ '|'), rest.takeWhile (· ≠ '|'), line)

/-- How the acceptance of a signal goes: the candidates that are added, and what it throws. -/
structure Acceptance where
  added : List AddCandidate
  thrown : Option String
  deriving DecidableEq

def addCandidates : List String → Acceptance
  | [] => ⟨[], none⟩
  | entry :: entries =>
      match splitEntry entry.toList with
      | none => addCandidates entries
      | some (cand, mid, line) =>
          match stoi line with
          | none => ⟨[], some "stoi"⟩
          | some mline =>
              let rest := addCandidates entries
              ⟨⟨cStr (String.ofList mid), mline, cStr (String.ofList cand)⟩ :: rest.added, rest.thrown⟩

structure SignalPayload where
  type : String
  sdp : String
  candidates : List String
  deriving DecidableEq

/-- The functions of Boost.JSON: texts are bytes, and a text that does not parse has an error message. -/
structure BoostJson where
  serialize : Json → List Byte
  parse : List Byte → Except String Json

def BoostJson.Lossless (json : BoostJson) (v : Json) : Prop := json.parse (json.serialize v) = .ok v

def SignalPayload.toJson (payload : SignalPayload) : Json :=
  .object [("type", .string payload.type), ("sdp", .string payload.sdp),
    ("candidates", .array (payload.candidates.map .string))]

def encodeSignal (json : BoostJson) (payload : SignalPayload) : List Byte :=
  base64urlEncode (json.serialize payload.toJson)

def readStrings (elems : List Json) : List String :=
  elems.filterMap fun
    | .string s => some (cStr s)
    | _ => none

def decodeSignal (json : BoostJson) (code : List Byte) (expectedType : String) :
    Except String SignalPayload :=
  let bin := base64urlDecode code
  if bin = [] then .error "信令码解码失败"
  else
    match json.parse bin with
    | .error what => .error ("信令 JSON 解析失败: " ++ what)
    | .ok (.object obj) =>
        match ifContains obj "type", ifContains obj "sdp", ifContains obj "candidates" with
        | some type, some sdp, some cands =>
            match type, sdp, cands with
            | .string type, .string sdp, .array cands =>
                if cStr type ≠ expectedType then .error ("信令类型不匹配：期望 " ++ expectedType)
                else .ok ⟨cStr type, cStr sdp, readStrings cands⟩
            | _, _, _ => .error "信令字段类型错误"
        | _, _, _ => .error "信令缺少必要字段"
    | .ok _ => .error "信令格式非法：非对象"

/-- What follows when the payload has been read: the remote description is set, and then the candidates
are added. -/
def acceptPayload (setRemoteDescription : String → String → Except String Unit) (type : String)
    (payload : SignalPayload) : Acceptance :=
  match setRemoteDescription (cStr payload.sdp) type with
  | .error err => ⟨[], some err⟩
  | .ok () => addCandidates payload.candidates

/-- `accept_offer`, up to the answer. -/
def acceptOffer (json : BoostJson) (setRemoteDescription : String → String → Except String Unit)
    (offerCode : List Byte) : Acceptance :=
  match decodeSignal json offerCode "offer" with
  | .error what => ⟨[], some what⟩
  | .ok payload => acceptPayload setRemoteDescription "offer" payload

/-- `accept_answer`; `pc` says whether there is a connection. -/
def acceptAnswer (json : BoostJson) (setRemoteDescription : String → String → Except String Unit)
    (pc : Bool) (answerCode : List Byte) : Acceptance :=
  match decodeSignal json answerCode "answer" with
  | .error what => ⟨[], some what⟩
  | .ok payload =>
      if pc then acceptPayload setRemoteDescription "answer" payload
      else ⟨[], some "无 PeerConnection（未调用 generate_offer）"⟩

/-! ### Candidates through a signal -/

/-- A candidate whose texts hold neither NULs nor separators, with a line index that is an `int`. -/
structure IceCandidate.Plain (c : IceCandidate) : Prop where
  candidate : NulFree c.candidate
  candidate_sep : '|' ∉ c.candidate.toList
  sdpMid : NulFree c.sdpMid
  sdpMid_sep : '|' ∉ c.sdpMid.toList
  index : inRangeInt32 c.sdpMlineIndex = true

def IceCandidate.call (c : IceCandidate) : AddCandidate := ⟨c.sdpMid, c.sdpMlineIndex, c.candidate⟩

theorem isBlankChar_of_digit {c : Char} (h : c.isDigit = true) : isBlankChar c = false := by
  by_contra hblank
  simp only [isBlankChar, Bool.not_eq_false, Bool.or_eq_true, decide_eq_true_eq, or_assoc] at hblank
  rcases hblank with rfl | rfl | rfl | rfl | rfl | rfl <;> exact absurd h (by decide)

theorem stoi_toString {n : Int} (h : inRangeInt32 n = true) : stoi (toString n).toList = some n := by
  have hrange := h
  simp only [inRangeInt32, Bool.and_eq_true, decide_eq_true_eq] at hrange
  have hvalue := fromChars_toString (n := n) (by omega) (by omega)
  have hhead : ∀ c : Char, c.isDigit = false → c ≠ '-' → (toString n).toList.head? ≠ some c :=
    fun c hdigit hsign heq => not_mem_toString_int n hdigit hsign (List.mem_of_head? heq)
  have hblank : (toString n).toList.dropWhile isBlankChar = (toString n).toList := by
    rw [List.dropWhile_eq_self_iff]
    intro hpos hfirst
    rcases isDigit_or_sign_of_mem_toString (List.getElem_mem hpos) with hdigit | hsign
    · rw [isBlankChar_of_digit hdigit] at hfirst
      cases hfirst
    · rw [hsign] at hfirst
      exact absurd hfirst (by decide)
  simp only [stoi, hblank, hhead '+' (by decide) (by decide), false_and, if_false, hvalue,
    Option.filter_some, h, if_true]

theorem toList_entry (c : IceCandidate) :
    c.entry.toList =
      c.candidate.toList ++ '|' :: (c.sdpMid.toList ++ '|' :: (toString c.sdpMlineIndex).toList) := by
  have hsep : "|".toList = ['|'] := by decide
  simp only [IceCandidate.entry, String.toList_append, hsep, List.append_assoc, List.cons_append,
    List.nil_append]

theorem splitEntry_entry {c : IceCandidate} (h : c.Plain) :
    splitEntry c.entry.toList =
      some (c.candidate.toList, c.sdpMid.toList, (toString c.sdpMlineIndex).toList) := by
  rw [toList_entry, splitEntry, afterFirst_of_not_mem h.candidate_sep]
  simp only [afterFirst_of_not_mem h.sdpMid_sep, takeWhile_before h.candidate_sep,
    takeWhile_before h.sdpMid_sep]

theorem addCandidates_entries {cs : List IceCandidate} (h : ∀ c ∈ cs, c.Plain) :
    addCandidates (cs.map IceCandidate.entry) = ⟨cs.map IceCandidate.call, none⟩ := by
  induction cs with
  | nil => rfl
  | cons c cs ih =>
      obtain ⟨hc, hcs⟩ := List.forall_mem_cons.mp h
      rw [List.map_cons, addCandidates, splitEntry_entry hc]
      simp only [stoi_toString hc.index, ih hcs, String.ofList_toList, hc.candidate.cStr_eq,
        hc.sdpMid.cStr_eq]
      rfl

theorem collected_eq (calls : List (Option IceCandidate)) :
    collected calls = (calls.filterMap id).map IceCandidate.entry := by
  have hfold : ∀ candidates, calls.foldl onIceCandidate candidates =
      candidates ++ (calls.filterMap id).map IceCandidate.entry := by
    induction calls with
    | nil => simp
    | cons call calls ih =>
        intro candidates
        cases call <;> simp [onIceCandidate, ih]
  exact hfold []

theorem nulFree_append {s t : String} (hs : NulFree s) (ht : NulFree t) : NulFree (s ++ t) := by
  intro c hc
  rw [String.toList_append, List.mem_append] at hc
  exact hc.elim (hs c) (ht c)

theorem nulFree_entry {c : IceCandidate} (h : c.Plain) : NulFree c.entry := by
  have hsep : NulFree "|" := by decide
  have hindex : NulFree (toString c.sdpMlineIndex) := by
    intro d hd hnul
    rcases isDigit_or_sign_of_mem_toString hd with hdigit | rfl
    · have hbound := (Char.isDigit_iff_toNat.mp hdigit).1
      rw [hnul] at hbound
      exact absurd hbound (by decide)
    · exact absurd hnul (by decide)
  exact nulFree_append
    (nulFree_append (nulFree_append (nulFree_append h.candidate hsep) h.sdpMid) hsep) hindex

/-! ### Payloads through a signal -/

theorem readStrings_map {texts : List String} (h : ∀ text ∈ texts, NulFree text) :
    readStrings (texts.map .string) = texts := by
  rw [readStrings, List.filterMap_map]
  refine (List.filterMap_congr fun text htext => ?_).trans List.filterMap_some
  exact congrArg some (h text htext).cStr_eq

theorem decodeSignal_encodeSignal {json : BoostJson} (hempty : ∃ what, json.parse [] = .error what)
    {payload : SignalPayload} (htype : NulFree payload.type) (hsdp : NulFree payload.sdp)
    (hcandidates : ∀ entry ∈ payload.candidates, NulFree entry) (hlossless : json.Lossless payload.toJson)
    (expectedType : String) :
    decodeSignal json (encodeSignal json payload) expectedType =
      if payload.type ≠ expectedType then .error ("信令类型不匹配：期望 " ++ expectedType)
      else .ok payload := by
  have hne : json.serialize payload.toJson ≠ [] := by
    intro hnil
    obtain ⟨what, herror⟩ := hempty
    rw [BoostJson.Lossless, hnil, herror] at hlossless
    cases hlossless
  have htext : base64urlDecode (encodeSignal json payload) = json.serialize payload.toJson :=
    decodeImpl_of_inserted kUrlAlphabet false (Inserted.refl _)
  rw [decodeSignal, htext, if_neg hne, hlossless]
  simp [SignalPayload.toJson, ifContains, htype.cStr_eq, hsdp.cStr_eq, readStrings_map hcandidates]

theorem acceptPayload_collected {setRemoteDescription : String → String → Except String Unit}
    {type sdp : String} {calls : List (Option IceCandidate)} (hsdp : NulFree sdp)
    (hplain : ∀ c, some c ∈ calls → c.Plain) (hset : setRemoteDescription sdp type = .ok ()) :
    acceptPayload setRemoteDescription type ⟨type, sdp, collected calls⟩ =
      ⟨(calls.filterMap id).map IceCandidate.call, none⟩ := by
  simp only [acceptPayload, hsdp.cStr_eq, hset, collected_eq]
  refine addCandidates_entries fun c hc => hplain c ?_
  simpa using hc

theorem nulFree_collected {calls : List (Option IceCandidate)} (hplain : ∀ c, some c ∈ calls → c.Plain) :
    ∀ entry ∈ collected calls, NulFree entry := by
  rw [collected_eq]
  intro entry hentry
  obtain ⟨c, hc, rfl⟩ := List.mem_map.mp hentry
  exact nulFree_entry (hplain c (by simpa using hc))

/-- **A signal arrives.** The payload of an offer or an answer is read from its text as it was, a text of
the other type is refused, and the connection that accepts it gets the candidates that were collected on
the other side, in their order. -/
theorem signal_arrives {json : BoostJson} (hempty : ∃ what, json.parse [] = .error what) {sdp : String}
    (hsdp : NulFree sdp) {calls : List (Option IceCandidate)} (hplain : ∀ c, some c ∈ calls → c.Plain)
    (hlossless : ∀ type, type = "offer" ∨ type = "answer" →
      json.Lossless (SignalPayload.toJson ⟨type, sdp, collected calls⟩))
    {setRemoteDescription : String → String → Except String Unit}
    (hset : ∀ type, type = "offer" ∨ type = "answer" → setRemoteDescription sdp type = .ok ()) :
    (∀ type, type = "offer" ∨ type = "answer" →
      decodeSignal json (encodeSignal json ⟨type, sdp, collected calls⟩) type =
          .ok ⟨type, sdp, collected calls⟩ ∧
        ∀ expectedType, expectedType ≠ type →
          decodeSignal json (encodeSignal json ⟨type, sdp, collected calls⟩) expectedType =
            .error ("信令类型不匹配：期望 " ++ expectedType)) ∧
      acceptOffer json setRemoteDescription (encodeSignal json ⟨"offer", sdp, collected calls⟩) =
        ⟨(calls.filterMap id).map IceCandidate.call, none⟩ ∧
      acceptAnswer json setRemoteDescription true (encodeSignal json ⟨"answer", sdp, collected calls⟩) =
        ⟨(calls.filterMap id).map IceCandidate.call, none⟩ := by
  have hdecode : ∀ type, type = "offer" ∨ type = "answer" → ∀ expectedType,
      decodeSignal json (encodeSignal json ⟨type, sdp, collected calls⟩) expectedType =
        if type ≠ expectedType then .error ("信令类型不匹配：期望 " ++ expectedType)
        else .ok ⟨type, sdp, collected calls⟩ := by
    intro type htype expectedType
    have htypeText : NulFree type := by
      rcases htype with rfl | rfl <;> decide
    exact decodeSignal_encodeSignal hempty htypeText hsdp (nulFree_collected hplain)
      (hlossless type htype) expectedType
  refine ⟨fun type htype => ⟨?_, fun expectedType hne => ?_⟩, ?_, ?_⟩
  · rw [hdecode type htype, if_neg (not_not.mpr rfl)]
  · rw [hdecode type htype, if_pos hne.symm]
  · rw [acceptOffer, hdecode _ (Or.inl rfl), if_neg (not_not.mpr rfl)]
    exact acceptPayload_collected hsdp hplain (hset _ (Or.inl rfl))
  · rw [acceptAnswer, hdecode _ (Or.inr rfl), if_neg (not_not.mpr rfl)]
    exact acceptPayload_collected hsdp hplain (hset _ (Or.inr rfl))

def sampleCalls : List (Option IceCandidate) := [some ⟨"candidate:1 1 udp", "0", 0⟩, none]

def sampleText (type : String) : List Byte :=
  ("\x7b\"type\":\"" ++ type ++ "\",\"sdp\":\"v=0\",\"candidates\":[\"candidate:1 1 udp|0|0\"]\x7d").toList.map byteOf

def sampleParse (text : List Byte) : Except String Json :=
  if text = sampleText "offer" then .ok (SignalPayload.toJson ⟨"offer", "v=0", collected sampleCalls⟩)
  else if text = sampleText "answer" then
    .ok (SignalPayload.toJson ⟨"answer", "v=0", collected sampleCalls⟩)
  else .error "syntax error"

def sampleSerialize : Json → List Byte
  | .object ((_, .string type) :: _) => sampleText type
  | _ => "null".toList.map byteOf

theorem signal_arrives_sample :
    acceptOffer ⟨sampleSerialize, sampleParse⟩ (fun _ _ => .ok ())
        (encodeSignal ⟨sampleSerialize, sampleParse⟩ ⟨"offer", "v=0", collected sampleCalls⟩) =
      ⟨[⟨"0", 0, "candidate:1 1 udp"⟩], none⟩ := by
  have hplain : ∀ c, some c ∈ sampleCalls → c.Plain := by
    intro c hc
    obtain rfl : c = ⟨"candidate:1 1 udp", "0", 0⟩ := by simpa [sampleCalls] using hc
    exact ⟨by decide, by decide, by decide, by decide, by decide⟩
  have hother : sampleText "answer" ≠ sampleText "offer" := by decide
  have hlossless : ∀ type, type = "offer" ∨ type = "answer" →
      BoostJson.Lossless ⟨sampleSerialize, sampleParse⟩
        (SignalPayload.toJson ⟨type, "v=0", collected sampleCalls⟩) := by
    intro type htype
    change sampleParse (sampleText type) = _
    rw [sampleParse]
    rcases htype with rfl | rfl
    · rw [if_pos rfl]
    · rw [if_neg hother, if_pos rfl]
  have hempty : sampleParse [] = .error "syntax error" := by
    rw [sampleParse, if_neg (by decide), if_neg (by decide)]
  have hset : ∀ type, type = "offer" ∨ type = "answer" →
      (fun _ _ => .ok () : String → String → Except String Unit) "v=0" type = .ok () := fun _ _ => rfl
  exact (signal_arrives ⟨_, hempty⟩ (by decide) hplain hlossless hset).2.1

end DownloadWrapper.P2p
