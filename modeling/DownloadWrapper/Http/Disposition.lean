import DownloadWrapper.Http.Header
import DownloadWrapper.Utils.Scanning

/-!
# Names in a Content-Disposition header

What the grammar of the header says is named, against what the engine finds: it searches for the
first `filename*=` or `filename=` wherever that stands, takes all that follows, and decodes nothing.
-/

namespace DownloadWrapper

structure Run (p : Char → Bool) where
  chars : List Char
  all : chars.all p = true

theorem Run.of_mem {p : Char → Bool} (r : Run p) : ∀ c ∈ r.chars, p c = true :=
  List.all_eq_true.mp r.all

abbrev Blanks := Run isBlankChar

def isTokenChar (c : Char) : Bool := !isBlankChar c && c ≠ ';' && c ≠ '"' && c ≠ '='

structure Token extends Run isTokenChar where
  nonempty : chars ≠ []

def isPlainChar (c : Char) : Bool := c ≠ '"' && c ≠ '\\'

inductive QuotedChar where
  | plain (c : Char) (hc : isPlainChar c = true)
  | escaped (c : Char)

def QuotedChar.text : QuotedChar → List Char
  | .plain c _ => [c]
  | .escaped c => ['\\', c]

inductive ParameterValue where
  | token (t : Token)
  | quotedString (chars : List QuotedChar)

def ParameterValue.text : ParameterValue → List Char
  | .token t => t.chars
  | .quotedString chars => quoted (chars.flatMap QuotedChar.text)

inductive FilenameValue where
  | token (t : Token)
  | quotedString (s : Run isPlainChar)

namespace FilenameValue

def text : FilenameValue → List Char
  | .token t => t.chars
  | .quotedString s => quoted s.chars

def denoted : FilenameValue → List Char
  | .token t => t.chars
  | .quotedString s => s.chars

end FilenameValue

def isHexDigit (c : Char) : Bool := c.isDigit || ('a'.toNat ≤ c.toLower.toNat && c.toLower.toNat ≤ 'f'.toNat)

def hexValue (c : Char) : Nat :=
  if c.isDigit then c.toNat - '0'.toNat else c.toLower.toNat - 'a'.toNat + 10

def isOctetChar (c : Char) : Bool := isTokenChar c && c ≠ '\'' && c ≠ '%'

inductive Octet where
  | plain (c : Char) (hc : isOctetChar c = true)
  | escaped (high low : Char) (hhigh : isHexDigit high = true) (hlow : isHexDigit low = true)

namespace Octet

def text : Octet → List Char
  | .plain c _ => [c]
  | .escaped high low _ _ => ['%', high, low]

def denoted : Octet → Char
  | .plain c _ => c
  | .escaped high low _ _ => Char.ofNat (16 * hexValue high + hexValue low)

def isEscaped : Octet → Bool
  | .plain _ _ => false
  | .escaped _ _ _ _ => true

end Octet

def isTagChar (c : Char) : Bool := isTokenChar c && c ≠ '\''

structure ExtendedName where
  charset : Run isTagChar
  language : Run isTagChar
  octets : List Octet

namespace ExtendedName

def encoded (n : ExtendedName) : List Char := n.octets.flatMap Octet.text

def text (n : ExtendedName) : List Char :=
  n.charset.chars ++ '\'' :: (n.language.chars ++ '\'' :: n.encoded)

def denoted (n : ExtendedName) : List Char := n.octets.map Octet.denoted

end ExtendedName

def filenameKey : List Char := "filename=".toList

def filenameStarKey : List Char := "filename*=".toList

/-- A parameter counts by its whole name: one that merely ends in `filename` is another. -/
inductive Parameter where
  | filename (name : FilenameValue)
  | filenameStar (name : ExtendedName)
  | other (name : Token) (hname : name.chars ≠ "filename".toList ∧ name.chars ≠ "filename*".toList)
      (value : ParameterValue)

namespace Parameter

def text : Parameter → List Char
  | .filename name => filenameKey ++ name.text
  | .filenameStar name => filenameStarKey ++ name.text
  | .other name _ value => name.chars ++ '=' :: value.text

def filename? : Parameter → Option FilenameValue
  | .filename name => some name
  | _ => none

def filenameStar? : Parameter → Option ExtendedName
  | .filenameStar name => some name
  | _ => none

end Parameter

structure Separated where
  lead : Blanks
  gap : Blanks
  parameter : Parameter

namespace Separated

def opening (s : Separated) : List Char := s.lead.chars ++ ';' :: s.gap.chars

def text (s : Separated) : List Char := s.opening ++ s.parameter.text

end Separated

def parametersText (parameters : List Separated) : List Char := parameters.flatMap Separated.text

/-- A header value of the form `type *( ";" parameter )`. -/
structure Disposition where
  type : Token
  parameters : List Separated
  trail : Blanks

/-- The first parameter of a kind: the text before it, its value and the parameters behind it. -/
structure Found (β : Type) where
  before : List Char
  value : β
  behind : List Separated

def findParameter {β : Type} (select : Parameter → Option β) (before : List Char) :
    List Separated → Option (Found β)
  | [] => none
  | s :: rest =>
      match select s.parameter with
      | some value => some ⟨before ++ s.opening, value, rest⟩
      | none => findParameter select (before ++ s.text) rest

namespace Disposition

def text (h : Disposition) : List Char :=
  h.type.chars ++ parametersText h.parameters ++ h.trail.chars

def filename? (h : Disposition) : Option (Found FilenameValue) :=
  findParameter Parameter.filename? h.type.chars h.parameters

def filenameStar? (h : Disposition) : Option (Found ExtendedName) :=
  findParameter Parameter.filenameStar? h.type.chars h.parameters

/-- The name that the header gives: `filename*` comes before `filename`. -/
def denoted (h : Disposition) : List Char :=
  match h.filenameStar?, h.filename? with
  | some found, _ => found.value.denoted
  | none, some found => found.value.denoted
  | none, none => []

end Disposition

/-! ### Where the search reads the name -/

def Spells (s name : List Char) : Prop := s = name ∨ s = quoted name

/-- The same behind a charset and a language, if two apostrophes stand there. -/
def SpellsExtended (s name : List Char) : Prop :=
  (s.count '\'' < 2 ∧ Spells s name) ∨
    ∃ charset language value, '\'' ∉ charset ∧ '\'' ∉ language ∧
      s = charset ++ '\'' :: (language ++ '\'' :: value) ∧ Spells value name

def Found.passed {β : Type} (found : Found β) (key : List Char) : List Char :=
  behindFirst key (found.before ++ key)

/-- The search reads the name that the header gives. A `filename*` must come last and be written
without escapes, and no apostrophe may stand between the first `filename*=` and its own value; where
there is none, but `filename*=` stands elsewhere, the text behind it must happen to be the name; and a
`filename` must come last, and its `filename=` be the first. -/
def Disposition.Legible (h : Disposition) : Prop :=
  match h.filenameStar? with
  | some found =>
      found.behind = [] ∧ (∀ o ∈ found.value.octets, o.isEscaped = false) ∧
        '\'' ∉ found.passed filenameStarKey
  | none =>
      match afterPattern filenameStarKey h.text with
      | some rest => SpellsExtended (trimView rest) h.denoted
      | none =>
          match h.filename? with
          | some found => found.behind = [] ∧ found.passed filenameKey = []
          | none => ∀ rest ∈ afterPattern filenameKey h.text, Spells (trimView rest) []

section Text

variable {c : Char} {s : List Char}

theorem isTokenChar_iff :
    isTokenChar c = true ↔ isBlankChar c = false ∧ c ≠ ';' ∧ c ≠ '"' ∧ c ≠ '=' := by
  simp [isTokenChar, and_assoc]

theorem isInk_of_token (hc : isTokenChar c = true) : isInk c = true := by
  obtain ⟨hblank, _, hquote, _⟩ := isTokenChar_iff.mp hc
  simp [isInk, hblank, hquote]

theorem quote_not_mem_of_ink (hs : ∀ c ∈ s, isInk c = true) : '"' ∉ s := by
  intro hquote
  exact absurd (hs _ hquote) (by decide)

theorem isInk_of_hexDigit (hc : isHexDigit c = true) : isInk c = true := by
  by_contra hink
  have hfew : c ∈ [' ', '\t', '\r', '\n', '\x0b', '\x0c', '"'] := by
    simp only [isInk, isBlankChar, Bool.and_eq_true, Bool.not_eq_true', Bool.or_eq_false_iff,
      decide_eq_true_eq, decide_eq_false_iff_not] at hink
    simp only [List.mem_cons, List.not_mem_nil, or_false]
    tauto
  have hnone : [' ', '\t', '\r', '\n', '\x0b', '\x0c', '"'].all (fun d => !isHexDigit d) = true := by
    decide
  have hno := List.all_eq_true.mp hnone c hfew
  rw [hc] at hno
  cases hno

end Text

theorem Token.ink_chars (t : Token) : ∀ c ∈ t.chars, isInk c = true :=
  fun c hc => isInk_of_token (t.of_mem c hc)

theorem Token.blank_chars (t : Token) : ∀ c ∈ t.chars, isBlankChar c = false :=
  fun c hc => (isTokenChar_iff.mp (t.of_mem c hc)).1

theorem Run.apostrophe_not_mem (r : Run isTagChar) : '\'' ∉ r.chars :=
  fun hmem => absurd (r.of_mem _ hmem) (by decide)

namespace FilenameValue

theorem quote_not_mem_denoted (n : FilenameValue) : '"' ∉ n.denoted := by
  cases n with
  | token t => exact quote_not_mem_of_ink t.ink_chars
  | quotedString s => exact fun hquote => absurd (s.of_mem _ hquote) (by decide)

theorem spells_text (n : FilenameValue) : Spells n.text n.denoted := by
  cases n with
  | token t => exact Or.inl rfl
  | quotedString s => exact Or.inr rfl

@[simp] theorem ink_text (n : FilenameValue) : ink n.text = ink n.denoted := by
  cases n with
  | token t => rfl
  | quotedString s => exact ink_quoted s.chars

theorem trimView_text (n : FilenameValue) (trail : Blanks) :
    trimView (n.text ++ trail.chars) = n.text := by
  cases n with
  | token t => exact trimView_append_of_forall t.blank_chars trail.of_mem
  | quotedString s =>
      have hquote : isBlankChar '"' = false := by decide
      have hnone : trail.chars.rdropWhile isBlankChar = [] :=
        List.rdropWhile_eq_nil_iff.mpr trail.of_mem
      have hsplit : quoted s.chars ++ trail.chars = ('"' :: s.chars) ++ '"' :: trail.chars := by
        simp [quoted]
      rw [text, hsplit, trimView_around hquote, hnone, List.dropWhile_cons_of_neg (by simp [hquote])]
      rfl

end FilenameValue

namespace ExtendedName

theorem ink_encoded (n : ExtendedName) : ∀ c ∈ n.encoded, isInk c = true := by
  intro c hc
  obtain ⟨o, _, hc⟩ := List.mem_flatMap.mp hc
  cases o with
  | plain d hd =>
      obtain rfl := List.mem_singleton.mp hc
      rw [isOctetChar, Bool.and_eq_true, Bool.and_eq_true] at hd
      exact isInk_of_token hd.1.1
  | escaped high low hhigh hlow =>
      simp only [Octet.text, List.mem_cons, List.not_mem_nil, or_false] at hc
      rcases hc with rfl | rfl | rfl
      · decide
      · exact isInk_of_hexDigit hhigh
      · exact isInk_of_hexDigit hlow

theorem length_encoded (n : ExtendedName) :
    n.encoded.length = n.denoted.length + 2 * n.octets.countP Octet.isEscaped := by
  rw [encoded, denoted, List.length_map]
  induction n.octets with
  | nil => rfl
  | cons o octets ih =>
      rw [List.flatMap_cons, List.length_append, ih, List.countP_cons, List.length_cons]
      cases o with
      | plain c hc => simp [Octet.text, Octet.isEscaped]; omega
      | escaped high low hhigh hlow => simp [Octet.text, Octet.isEscaped]; omega

theorem encoded_of_plain (n : ExtendedName) (hplain : ∀ o ∈ n.octets, o.isEscaped = false) :
    n.encoded = n.denoted := by
  have htext : ∀ o ∈ n.octets, o.text = [o.denoted] := by
    intro o ho
    cases o with
    | plain c hc => rfl
    | escaped high low hhigh hlow => cases hplain _ ho
  rw [encoded, List.flatMap_congr htext]
  exact List.map_eq_flatMap.symm

end ExtendedName

theorem findParameter_text {β : Type} {select : Parameter → Option β} {before : List Char}
    {parameters : List Separated} {found : Found β}
    (h : findParameter select before parameters = some found) :
    ∃ parameter, select parameter = some found.value ∧
      before ++ parametersText parameters =
        found.before ++ parameter.text ++ parametersText found.behind := by
  induction parameters generalizing before with
  | nil => cases h
  | cons s rest ih =>
      rw [findParameter] at h
      split at h
      next value hvalue =>
        obtain rfl := Option.some.inj h
        refine ⟨s.parameter, hvalue, ?_⟩
        simp [parametersText, Separated.text]
      next =>
        obtain ⟨parameter, hselect, htext⟩ := ih h
        refine ⟨parameter, hselect, ?_⟩
        rw [← htext]
        simp [parametersText]

theorem eq_nil_of_ink_parametersText {parameters : List Separated}
    (h : ink (parametersText parameters) = 0) : parameters = [] := by
  cases parameters with
  | nil => rfl
  | cons s rest =>
      have hmem : ';' ∈ parametersText (s :: rest) := by
        simp [parametersText, Separated.text, Separated.opening]
      exact absurd h (ink_pos hmem (by decide)).ne'

namespace Disposition

variable {h : Disposition}

theorem text_of_filename {found : Found FilenameValue} (hfound : h.filename? = some found) :
    h.text = found.before ++ filenameKey ++
      (found.value.text ++ (parametersText found.behind ++ h.trail.chars)) := by
  obtain ⟨parameter, hselect, htext⟩ := findParameter_text hfound
  cases parameter with
  | filename name =>
      obtain rfl := Option.some.inj hselect
      rw [text, htext]
      simp [Parameter.text]
  | filenameStar name => cases hselect
  | other name hname value => cases hselect

theorem text_of_filenameStar {found : Found ExtendedName} (hfound : h.filenameStar? = some found) :
    h.text = found.before ++ filenameStarKey ++
      (found.value.text ++ (parametersText found.behind ++ h.trail.chars)) := by
  obtain ⟨parameter, hselect, htext⟩ := findParameter_text hfound
  cases parameter with
  | filename name => cases hselect
  | filenameStar name =>
      obtain rfl := Option.some.inj hselect
      rw [text, htext]
      simp [Parameter.text]
  | other name hname value => cases hselect

theorem quote_not_mem_denoted (hstar : h.filenameStar? = none) : '"' ∉ h.denoted := by
  rw [denoted, hstar]
  cases h.filename? with
  | none => exact List.not_mem_nil
  | some found => exact found.value.quote_not_mem_denoted

end Disposition

/-- What `parse_content_disposition_filename` leaves of an extended value: everything behind the
second apostrophe, if there are two. -/
def behindCharset (s : List Char) : List Char :=
  match afterFirst '\'' s with
  | none => s
  | some rest => (afterFirst '\'' rest).getD s

section Charset

variable {charset language value s name : List Char}

theorem behindCharset_append (hcharset : '\'' ∉ charset) (hlanguage : '\'' ∉ language)
    (value : List Char) :
    behindCharset (charset ++ '\'' :: (language ++ '\'' :: value)) = value := by
  simp only [behindCharset, afterFirst_of_not_mem hcharset, afterFirst_of_not_mem hlanguage,
    Option.getD_some]

theorem behindCharset_of_count (hs : s.count '\'' < 2) : behindCharset s = s := by
  rw [behindCharset]
  by_cases hmem : '\'' ∈ s
  · obtain ⟨charset, rest, rfl, hcharset⟩ := List.eq_append_cons_of_mem hmem
    have hrest : '\'' ∉ rest := by
      rw [List.count_append, List.count_cons_self] at hs
      exact List.count_eq_zero.mp (by omega)
    simp only [afterFirst_of_not_mem hcharset, afterFirst_eq_none hrest, Option.getD_none]
  · simp only [afterFirst_eq_none hmem]

theorem exists_charset (hs : 2 ≤ s.count '\'') : ∃ charset language value,
    '\'' ∉ charset ∧ '\'' ∉ language ∧ s = charset ++ '\'' :: (language ++ '\'' :: value) := by
  obtain ⟨charset, rest, rfl, hcharset⟩ :=
    List.eq_append_cons_of_mem (List.count_pos_iff.mp (by omega : 0 < s.count '\''))
  have hrest : 0 < rest.count '\'' := by
    rw [List.count_append, List.count_cons_self, List.count_eq_zero.mpr hcharset] at hs
    omega
  obtain ⟨language, value, rfl, hlanguage⟩ :=
    List.eq_append_cons_of_mem (List.count_pos_iff.mp hrest)
  exact ⟨charset, language, value, hcharset, hlanguage, rfl⟩

theorem unquote_behindCharset_iff (hname : '"' ∉ name) :
    unquote (behindCharset s) = name ↔ SpellsExtended s name := by
  rw [unquote_eq_iff hname]
  constructor
  · intro hspells
    rcases Nat.lt_or_ge (s.count '\'') 2 with hcount | hcount
    · rw [behindCharset_of_count hcount] at hspells
      exact Or.inl ⟨hcount, hspells⟩
    · obtain ⟨charset, language, value, hcharset, hlanguage, rfl⟩ := exists_charset hcount
      rw [behindCharset_append hcharset hlanguage] at hspells
      exact Or.inr ⟨charset, language, value, hcharset, hlanguage, rfl, hspells⟩
  · rintro (⟨hcount, hspells⟩ | ⟨charset, language, value, hcharset, hlanguage, rfl, hspells⟩)
    · rw [behindCharset_of_count hcount]
      exact hspells
    · rw [behindCharset_append hcharset hlanguage]
      exact hspells

theorem exists_behindCharset (hcharset : '\'' ∈ charset) (language : List Char) :
    ∃ kept, ∀ value, behindCharset (charset ++ '\'' :: (language ++ '\'' :: value)) =
      kept ++ '\'' :: value := by
  obtain ⟨rest, _, hrest⟩ := afterFirst_of_mem hcharset
  have hmem : '\'' ∈ rest ++ '\'' :: language := by simp
  obtain ⟨kept, _, hkept⟩ := afterFirst_of_mem hmem
  refine ⟨kept, fun value => ?_⟩
  have hbehind : rest ++ '\'' :: (language ++ '\'' :: value) =
      (rest ++ '\'' :: language) ++ '\'' :: value := by simp
  simp only [behindCharset, hrest, hbehind, hkept, Option.getD_some]

end Charset

/-! ### The parser -/

theorem parseContentDispositionFilename_of_star {value rest : List Char}
    (hstar : afterPattern filenameStarKey value = some rest) :
    parseContentDispositionFilename value =
      String.ofList (unquote (behindCharset (trimView rest))) := by
  unfold filenameStarKey at hstar
  unfold parseContentDispositionFilename behindCharset
  exact hstar ▸ rfl

theorem parseContentDispositionFilename_of_plain {value : List Char}
    (hstar : afterPattern filenameStarKey value = none) :
    parseContentDispositionFilename value =
      String.ofList (((afterPattern filenameKey value).map fun rest => unquote (trimView rest)).getD []) := by
  unfold filenameStarKey at hstar
  unfold parseContentDispositionFilename filenameKey
  rw [hstar]
  cases afterPattern "filename=".toList value with
  | none => rfl
  | some rest => rfl

namespace Disposition

variable {h : Disposition}

theorem trimView_filenameStar (passed : List Char) (n : ExtendedName) (tail : List Char) :
    trimView (passed ++ (n.text ++ tail)) =
      (passed ++ n.charset.chars).dropWhile isBlankChar ++
        '\'' :: (n.language.chars ++ '\'' :: (n.encoded ++ tail).rdropWhile isBlankChar) := by
  have hapostrophe : isBlankChar '\'' = false := by decide
  have hsplit : passed ++ (n.text ++ tail) =
      ((passed ++ n.charset.chars) ++ '\'' :: n.language.chars) ++ '\'' :: (n.encoded ++ tail) := by
    simp [ExtendedName.text]
  rw [hsplit, trimView_around hapostrophe, dropWhile_around hapostrophe]
  simp

theorem behindCharset_filenameStar {passed : List Char} (hpassed : '\'' ∉ passed)
    (n : ExtendedName) (tail : List Char) :
    behindCharset (trimView (passed ++ (n.text ++ tail))) =
      (n.encoded ++ tail).rdropWhile isBlankChar := by
  rw [trimView_filenameStar]
  refine behindCharset_append (fun hmem => ?_) n.language.apostrophe_not_mem _
  rcases List.mem_append.mp ((List.dropWhile_sublist _).subset hmem) with hmem | hmem
  · exact hpassed hmem
  · exact n.charset.apostrophe_not_mem hmem

theorem ink_behindCharset_filenameStar {passed : List Char} (hpassed : '\'' ∈ passed)
    (n : ExtendedName) (tail : List Char) :
    ink n.encoded < ink (behindCharset (trimView (passed ++ (n.text ++ tail)))) := by
  have hfront : '\'' ∈ (passed ++ n.charset.chars).dropWhile isBlankChar := by
    obtain ⟨front, back, rfl⟩ := List.append_of_mem hpassed
    rw [List.append_assoc, List.cons_append, dropWhile_around (by decide)]
    simp
  obtain ⟨kept, hkept⟩ := exists_behindCharset hfront n.language.chars
  have happos : ink ['\''] = 1 := by decide
  rw [trimView_filenameStar, hkept, ← List.singleton_append, ink_append, ink_append, ink_rdropWhile,
    ink_append, happos]
  omega

theorem ink_denoted_le (n : ExtendedName) : ink n.denoted ≤ ink n.encoded := by
  calc ink n.denoted
      ≤ n.denoted.length := ink_le_length n.denoted
    _ ≤ n.encoded.length := n.length_encoded ▸ Nat.le_add_right _ _
    _ = ink n.encoded := (ink_eq_length n.ink_encoded).symm

/-- Nothing but the value is taken exactly when it comes last; then it is the name exactly when
nothing in it is escaped. -/
theorem filenameStar_iff {found : Found ExtendedName} (hfound : h.filenameStar? = some found) :
    parseContentDispositionFilename h.text = String.ofList found.value.denoted ↔
      found.behind = [] ∧ (∀ o ∈ found.value.octets, o.isEscaped = false) ∧
        '\'' ∉ found.passed filenameStarKey := by
  have hsearch : afterPattern filenameStarKey h.text = some (found.passed filenameStarKey ++
      (found.value.text ++ (parametersText found.behind ++ h.trail.chars))) := by
    rw [text_of_filenameStar hfound, afterPattern_around, Found.passed]
  rw [parseContentDispositionFilename_of_star hsearch, String.ofList_inj]
  constructor
  · intro heq
    have hink := congrArg ink heq
    rw [ink_unquote] at hink
    have hpassed : '\'' ∉ found.passed filenameStarKey := by
      intro hmem
      have hmore := ink_behindCharset_filenameStar hmem found.value
        (parametersText found.behind ++ h.trail.chars)
      have hle := ink_denoted_le found.value
      omega
    rw [behindCharset_filenameStar hpassed, ink_rdropWhile, ink_append, ink_append,
      ink_eq_length found.value.ink_encoded, found.value.length_encoded] at hink
    have hle := ink_le_length found.value.denoted
    refine ⟨eq_nil_of_ink_parametersText (by omega), ?_, hpassed⟩
    have hcount : found.value.octets.countP Octet.isEscaped = 0 := by omega
    intro o ho
    exact Bool.eq_false_iff.mpr (List.countP_eq_zero.mp hcount o ho)
  · rintro ⟨hbehind, hplain, hpassed⟩
    have hblank : ∀ c ∈ found.value.encoded, isBlankChar c = false := by
      intro c hc
      have hc := found.value.ink_encoded c hc
      rw [isInk, Bool.and_eq_true] at hc
      simpa using hc.1
    rw [behindCharset_filenameStar hpassed, hbehind, parametersText, List.flatMap_nil,
      List.nil_append, rdropWhile_append_of_forall hblank h.trail.of_mem,
      ← found.value.encoded_of_plain hplain, unquote_eq_iff (quote_not_mem_of_ink found.value.ink_encoded)]
    exact Or.inl rfl

/-- A `filename` is read exactly when its `filename=` is the first and nothing follows. -/
theorem filename_iff {found : Found FilenameValue} (hfound : h.filename? = some found)
    (hnostar : afterPattern filenameStarKey h.text = none) :
    parseContentDispositionFilename h.text = String.ofList found.value.denoted ↔
      found.behind = [] ∧ found.passed filenameKey = [] := by
  have hsearch : afterPattern filenameKey h.text = some (found.passed filenameKey ++
      (found.value.text ++ (parametersText found.behind ++ h.trail.chars))) := by
    rw [text_of_filename hfound, afterPattern_around, Found.passed]
  rw [parseContentDispositionFilename_of_plain hnostar, hsearch, Option.map_some, Option.getD_some,
    String.ofList_inj]
  constructor
  · intro heq
    have hink := congrArg ink heq
    rw [ink_unquote, ink_trimView, ink_append, ink_append, ink_append, FilenameValue.ink_text] at hink
    refine ⟨eq_nil_of_ink_parametersText (by omega), ?_⟩
    refine (behindFirst_cases (by decide) found.before).resolve_right fun hmem => ?_
    have hpos : 0 < ink (found.passed filenameKey) := ink_pos hmem (by decide)
    omega
  · rintro ⟨hbehind, hpassed⟩
    rw [hpassed, hbehind, parametersText, List.flatMap_nil, List.nil_append, List.nil_append,
      FilenameValue.trimView_text, unquote_eq_iff found.value.quote_not_mem_denoted]
    exact found.value.spells_text

/-- **The name that the header gives is returned exactly when it is legible.** -/
theorem parseContentDispositionFilename_eq_iff (h : Disposition) :
    parseContentDispositionFilename h.text = String.ofList h.denoted ↔ h.Legible := by
  cases hstar : h.filenameStar? with
  | some found =>
      rw [Legible, denoted, hstar]
      exact filenameStar_iff hstar
  | none =>
      have hquote := quote_not_mem_denoted hstar
      cases hsearch : afterPattern filenameStarKey h.text with
      | some rest =>
          rw [Legible, hstar, hsearch, parseContentDispositionFilename_of_star hsearch,
            String.ofList_inj]
          exact unquote_behindCharset_iff hquote
      | none =>
          cases hplain : h.filename? with
          | some found =>
              rw [Legible, denoted, hstar, hsearch, hplain]
              exact filename_iff hplain hsearch
          | none =>
              rw [Legible, denoted, hstar, hsearch, hplain,
                parseContentDispositionFilename_of_plain hsearch, String.ofList_inj]
              cases afterPattern filenameKey h.text with
              | none => simp
              | some rest => simp [unquote_eq_iff]; rfl

end Disposition

def sizedDisposition : Disposition where
  type := ⟨⟨"attachment".toList, by decide⟩, by decide⟩
  parameters :=
    [⟨⟨[], rfl⟩, ⟨[' '], by decide⟩, .filename (.quotedString ⟨"a.bin".toList, by decide⟩)⟩,
      ⟨⟨[], rfl⟩, ⟨[' '], by decide⟩,
        .other ⟨⟨"size".toList, by decide⟩, by decide⟩ (by decide) (.token ⟨⟨['3'], by decide⟩, by decide⟩)⟩]
  trail := ⟨[], rfl⟩

/-- It is returned with the name, and the quotes stay. -/
theorem not_parsed_sized :
    sizedDisposition.text = "attachment; filename=\"a.bin\"; size=3".toList ∧
      parseContentDispositionFilename sizedDisposition.text = "\"a.bin\"; size=3" ∧
      parseContentDispositionFilename sizedDisposition.text ≠
        String.ofList sizedDisposition.denoted := by
  decide

end DownloadWrapper
