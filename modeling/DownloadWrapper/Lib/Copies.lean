import DownloadWrapper.Lib.ByteFile

/-!
# Files that copy a source

A file that is filled piece by piece from one source, in any order, is a copy of the source wherever
a piece has been written. Writing never harms what is copied already, because a piece of the source
that overlaps it says the same.
-/

namespace ByteFile

variable {β : Type*} {bytes source data : List β} {lo mid hi off : Nat}

/-- On `[lo, hi)` the file holds what the source holds there. -/
def Copies (bytes source : List β) (lo hi : Nat) : Prop :=
  ∀ i, lo ≤ i → i < hi → i < source.length ∧ bytes[i]? = source[i]?

theorem copies_of_le (bytes source : List β) (h : hi ≤ lo) : Copies bytes source lo hi :=
  fun i hlo hhi => absurd hhi (by omega)

theorem Copies.append (h : Copies bytes source lo mid) (h' : Copies bytes source mid hi) :
    Copies bytes source lo hi := by
  intro i hlo hhi
  by_cases hmid : i < mid
  · exact h i hlo hmid
  · exact h' i (Nat.not_lt.mp hmid) hhi

theorem Copies.eq (h : Copies bytes source 0 bytes.length) (hle : source.length ≤ bytes.length) :
    bytes = source := by
  refine List.ext_getElem? fun i => ?_
  by_cases hi : i < bytes.length
  · exact (h i (Nat.zero_le i) hi).2
  · rw [List.getElem?_eq_none (Nat.not_lt.mp hi), List.getElem?_eq_none (by omega)]

theorem getElem?_of_prefix {i : Nat} (hdata : data <+: source.drop off) (hi : i < data.length) :
    off + i < source.length ∧ data[i]? = source[off + i]? := by
  have hlength := hdata.length_le
  rw [List.length_drop] at hlength
  refine ⟨by omega, ?_⟩
  rw [← List.getElem?_drop, List.getElem?_eq_getElem hi, hdata.getElem hi,
    List.getElem?_eq_getElem]

variable [Inhabited β]

theorem copies_writeAt (bytes : List β) (hdata : data <+: source.drop off) :
    Copies (writeAt bytes off data) source off (off + data.length) := by
  intro i hlo hhi
  obtain ⟨hlt, hsame⟩ := getElem?_of_prefix hdata (show i - off < data.length by omega)
  rw [show off + (i - off) = i by omega] at hlt hsame
  exact ⟨hlt, (getElem?_writeAt_inside bytes hlo hhi).trans hsame⟩

theorem Copies.writeAt (h : Copies bytes source lo hi) (hdata : data <+: source.drop off) :
    Copies (ByteFile.writeAt bytes off data) source lo hi := by
  intro i hlo hhi
  obtain ⟨hlt, hsame⟩ := h i hlo hhi
  by_cases hinside : off ≤ i ∧ i < off + data.length
  · exact copies_writeAt bytes hdata i hinside.1 hinside.2
  · have hi : i < bytes.length := by
      by_contra hout
      rw [List.getElem?_eq_none (Nat.not_lt.mp hout), List.getElem?_eq_getElem hlt] at hsame
      simp at hsame
    exact ⟨hlt, (getElem?_writeAt_outside bytes (by omega) hi).trans hsame⟩

end ByteFile
