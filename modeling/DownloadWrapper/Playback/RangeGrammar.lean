import DownloadWrapper.Playback.Request
import DownloadWrapper.Utils.IntList
import DownloadWrapper.Utils.Scanning

/-!
# What counts as a range

The form `bytes=<start>-<end>` that the parser expects, against the headers that it takes. A number is
read as far as it goes, so what stands behind it does not matter.
-/

namespace DownloadWrapper.Playback

/-- `parse_range_header` with its two out parameters: the end is `-1` for an open range. -/
def parseRangeHeaderOut (value : String) : Option (Int × Int) :=
  (parseRangeHeader value).map fun range => (range.1, range.2.getD (-1))

/-- `text` writes the value of an `int64_t` with digits alone. -/
def Decimal (text : List Char) (value : Int) : Prop :=
  text ≠ [] ∧ (∀ c ∈ text, c.isDigit = true) ∧ value = Nat.ofDigitChars 10 text 0 ∧ value < 2 ^ 63

def RangeForm (value : String) (start stop : Int) : Prop :=
  ∃ first last : List Char, value.toList = "bytes=".toList ++ (first ++ '-' :: last) ∧
    Decimal first start ∧ (last = [] ∧ stop = -1 ∨ Decimal last stop)

def DividedAt (value : String) (first last : List Char) : Prop :=
  value.toList = "bytes=".toList ++ (first ++ '-' :: last) ∧ '-' ∉ first

/-- `std::from_chars` finds a number at the front of the text. -/
def Readable (text : List Char) : Prop := (fromChars text).isSome

def DigitsOnly (text : List Char) : Prop := ∀ c ∈ text, c.isDigit = true

theorem fromChars_of_digits {text : List Char} (hdigits : DigitsOnly text) :
    fromChars text =
      if text ≠ [] ∧ (Nat.ofDigitChars 10 text 0 : Int) < 2 ^ 63 then
        some (Nat.ofDigitChars 10 text 0 : Int)
      else none := by
  have hhead : text.head? ≠ some '-' := by
    intro hhead
    exact absurd (hdigits '-' (List.mem_of_head? hhead)) (by decide)
  have hall : text.takeWhile Char.isDigit = text := List.takeWhile_eq_self_iff.mpr hdigits
  have hvalue := foldl_digits text 0
  rw [Nat.cast_zero] at hvalue
  have hnonneg : (-2 ^ 63 : Int) ≤ (Nat.ofDigitChars 10 text 0 : Int) := by omega
  by_cases hnil : text = []
  · simp [fromChars, hnil]
  · simp only [fromChars, hhead, if_false, hall, hvalue, hnil, hnonneg, true_and, ne_eq,
      not_false_eq_true]

theorem decimal_iff {text : List Char} {value : Int} :
    Decimal text value ↔ DigitsOnly text ∧ fromChars text = some value := by
  constructor
  · rintro ⟨hne, hdigits, rfl, hlt⟩
    exact ⟨hdigits, by rw [fromChars_of_digits hdigits, if_pos ⟨hne, hlt⟩]⟩
  · rintro ⟨hdigits, hread⟩
    rw [fromChars_of_digits hdigits] at hread
    split_ifs at hread with h
    obtain rfl := Option.some.inj hread
    exact ⟨h.1, hdigits, rfl, h.2⟩

theorem dash_notMem_of_digits {text : List Char} (hdigits : DigitsOnly text) : '-' ∉ text :=
  fun hmem => absurd (hdigits '-' hmem) (by decide)

theorem DividedAt.unique {value : String} {first last first' last' : List Char}
    (h : DividedAt value first last) (h' : DividedAt value first' last') : first = first' ∧ last = last' := by
  have htext : first ++ '-' :: last = first' ++ '-' :: last' :=
    List.append_cancel_left (h.1.symm.trans h'.1)
  have hlast : last = last' := by
    have hafter := afterFirst_of_not_mem h.2 last
    rw [htext, afterFirst_of_not_mem h'.2] at hafter
    exact (Option.some.inj hafter).symm
  subst hlast
  exact ⟨List.append_cancel_right htext, rfl⟩

theorem parseRangeHeader_of_divided {value : String} {first last : List Char}
    (h : DividedAt value first last) :
    parseRangeHeader value =
      match fromChars first with
      | none => none
      | some start =>
          if last = [] then some (start, none) else (fromChars last).map fun stop => (start, some stop) := by
  rw [parseRangeHeader, h.1, if_neg (by simp), List.drop_left]
  simp only [afterFirst_of_not_mem h.2, takeWhile_before h.2]
  split
  next hnil => rw [hnil]; rfl
  next => rfl

theorem exists_divided {value : String} {range : Int × Option Int} (h : parseRangeHeader value = some range) :
    ∃ first last, DividedAt value first last := by
  rw [parseRangeHeader] at h
  split at h
  · cases h
  next hprefixed =>
    rw [not_not] at hprefixed
    obtain ⟨spec, hspec⟩ := List.isPrefixOf_iff_prefix.mp hprefixed
    rw [← hspec, List.drop_left] at h
    have hdash : '-' ∈ spec := by
      by_contra hnone
      simp [afterFirst_eq_none hnone] at h
    obtain ⟨first, last, hdivided, hfirst⟩ := List.eq_append_cons_of_mem hdash
    exact ⟨first, last, by rw [← hspec, hdivided], hfirst⟩

theorem parseRangeHeaderOut_eq_some {value : String} {start stop : Int} :
    parseRangeHeaderOut value = some (start, stop) ↔
      ∃ first last, DividedAt value first last ∧ fromChars first = some start ∧
        (last = [] ∧ stop = -1 ∨ last ≠ [] ∧ fromChars last = some stop) := by
  constructor
  · intro h
    obtain ⟨range, hrange, hout⟩ := Option.map_eq_some_iff.mp h
    obtain ⟨first, last, hdivided⟩ := exists_divided hrange
    refine ⟨first, last, hdivided, ?_⟩
    rw [parseRangeHeader_of_divided hdivided] at hrange
    cases hfirst : fromChars first with
    | none => simp [hfirst] at hrange
    | some first =>
        by_cases hlast : last = []
        · simp only [hfirst, hlast, if_true, Option.some.injEq] at hrange
          subst hrange
          obtain ⟨rfl, rfl⟩ := Prod.mk.inj hout
          exact ⟨rfl, Or.inl ⟨hlast, rfl⟩⟩
        · simp only [hfirst, hlast, if_false] at hrange
          obtain ⟨last', hread, rfl⟩ := Option.map_eq_some_iff.mp hrange
          obtain ⟨rfl, rfl⟩ := Prod.mk.inj hout
          exact ⟨rfl, Or.inr ⟨hlast, hread⟩⟩
  · rintro ⟨first, last, hdivided, hfirst, hlast⟩
    rw [parseRangeHeaderOut, parseRangeHeader_of_divided hdivided, hfirst]
    rcases hlast with ⟨rfl, rfl⟩ | ⟨hne, hread⟩
    · rfl
    · simp [hne, hread]

theorem rangeForm_iff {value : String} {start stop : Int} :
    RangeForm value start stop ↔
      ∃ first last, DividedAt value first last ∧ (DigitsOnly first ∧ fromChars first = some start) ∧
        (last = [] ∧ stop = -1 ∨ DigitsOnly last ∧ fromChars last = some stop) := by
  simp only [RangeForm, DividedAt, decimal_iff]
  constructor
  · rintro ⟨first, last, htext, hfirst, hlast⟩
    exact ⟨first, last, ⟨htext, dash_notMem_of_digits hfirst.1⟩, hfirst, hlast⟩
  · rintro ⟨first, last, ⟨htext, -⟩, hfirst, hlast⟩
    exact ⟨first, last, htext, hfirst, hlast⟩

/-- The parser takes exactly the headers of the form just if, where it finds a number at the front of both
texts, there is nothing but digits in them. A number with text behind it and an end with a sign are what
it takes beyond the form. -/
theorem parseRangeHeaderOut_iff_rangeForm (value : String) :
    (∀ start stop, parseRangeHeaderOut value = some (start, stop) ↔ RangeForm value start stop) ↔
      ∀ first last, DividedAt value first last → Readable first → (last = [] ∨ Readable last) →
        DigitsOnly first ∧ DigitsOnly last := by
  constructor
  · intro hexact first last hdivided hfirst hlast
    obtain ⟨start, hstart⟩ := Option.isSome_iff_exists.mp hfirst
    have htaken : ∃ stop, last = [] ∧ stop = -1 ∨ last ≠ [] ∧ fromChars last = some stop := by
      by_cases hnil : last = []
      · exact ⟨-1, Or.inl ⟨hnil, rfl⟩⟩
      · obtain ⟨stop, hstop⟩ := Option.isSome_iff_exists.mp (hlast.resolve_left hnil)
        exact ⟨stop, Or.inr ⟨hnil, hstop⟩⟩
    obtain ⟨stop, hstop⟩ := htaken
    have hform := (hexact start stop).mp
      (parseRangeHeaderOut_eq_some.mpr ⟨first, last, hdivided, hstart, hstop⟩)
    obtain ⟨first', last', hdivided', hfirst', hlast'⟩ := rangeForm_iff.mp hform
    obtain ⟨rfl, rfl⟩ := hdivided.unique hdivided'
    refine ⟨hfirst'.1, ?_⟩
    rcases hlast' with ⟨rfl, -⟩ | ⟨hdigits, -⟩
    · exact fun c hc => nomatch hc
    · exact hdigits
  · intro hdigits start stop
    rw [parseRangeHeaderOut_eq_some, rangeForm_iff]
    constructor
    · rintro ⟨first, last, hdivided, hfirst, hlast⟩
      have hreadable : last = [] ∨ Readable last :=
        hlast.imp And.left fun h => Option.isSome_iff_exists.mpr ⟨stop, h.2⟩
      obtain ⟨hfirst', hlast'⟩ := hdigits first last hdivided
        (Option.isSome_iff_exists.mpr ⟨start, hfirst⟩) hreadable
      exact ⟨first, last, hdivided, ⟨hfirst', hfirst⟩, hlast.imp_right fun h => ⟨hlast', h.2⟩⟩
    · rintro ⟨first, last, hdivided, hfirst, hlast⟩
      refine ⟨first, last, hdivided, hfirst.2, hlast.imp_right fun h => ⟨?_, h.2⟩⟩
      rintro rfl
      simp [fromChars] at h

/-- Two ranges are taken for the first one, and text behind a number or a sign in front of the end does
not matter, so the form is not what is taken. -/
theorem not_forall_parseRangeHeaderOut_iff_rangeForm :
    ¬ ∀ value start stop, parseRangeHeaderOut value = some (start, stop) ↔ RangeForm value start stop := by
  intro hexact
  have hform := (hexact "bytes=0-5,10-20" 0 5).mp (by decide)
  obtain ⟨first, last, hdivided, -, hlast⟩ := rangeForm_iff.mp hform
  obtain ⟨-, rfl⟩ := hdivided.unique (show DividedAt _ ['0'] "5,10-20".toList from ⟨by decide, by decide⟩)
  rcases hlast with ⟨hnil, -⟩ | ⟨hdigits, -⟩
  · exact absurd hnil (by decide)
  · exact absurd (hdigits ',' (by decide)) (by decide)

end DownloadWrapper.Playback
