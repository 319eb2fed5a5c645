import DownloadWrapper.Lib.Intervals
import DownloadWrapper.Torrent.Files
import Mathlib.Tactic.Ring

/-!
# The intervals of a file

A file's intervals are read off the piece bitmap, piece by piece; what is behind the last piece read
is not there yet. So they keep apart, and their lengths are the bytes that are counted.
-/

namespace DownloadWrapper

open Intervals

theorem apart_pushSegment {segments : List (Int × Int)} {lo hi start finish : Int}
    (hapart : Spaced lo hi segments) (hhi : hi < start) (hlo : lo ≤ start) (horder : start ≤ finish) :
    Spaced lo finish (pushSegment segments start finish) := by
  unfold pushSegment
  cases hlast : segments.getLast? with
  | none => exact .singleton hlo horder le_rfl
  | some segment =>
      obtain ⟨first, last⟩ := segment
      obtain ⟨front, rfl⟩ := List.getLast?_eq_some_iff.mp hlast
      obtain ⟨-, hle, hbound⟩ := hapart.within (first, last) (by simp)
      simp only
      split
      next htouch =>
        rw [List.dropLast_concat]
        exact hapart.prolong (by omega)
      next happart =>
        refine hapart.concat (fun s hs => ?_) hlo horder
        rcases List.mem_append.mp hs with hfront | hend
        · have hgap : s.2 + 1 < first :=
            (List.pairwise_append.mp hapart.gaps).2.2 s hfront _ (List.mem_singleton_self _)
          omega
        · rw [List.mem_singleton.mp hend]
          omega

theorem total_pushSegment (segments : List (Int × Int)) (start finish : Int) :
    total (pushSegment segments start finish) = total segments + (finish - start + 1) := by
  unfold pushSegment
  cases hlast : segments.getLast? with
  | none =>
      rw [List.getLast?_eq_none_iff.mp hlast]
      simp
  | some segment =>
      obtain ⟨first, last⟩ := segment
      obtain ⟨front, rfl⟩ := List.getLast?_eq_some_iff.mp hlast
      simp only
      split
      next htouch =>
        rw [List.dropLast_concat, total_append, total_append, total_singleton, total_singleton]
        omega
      next => rw [total_append, total_singleton]

section Pieces

variable {pieceLength : Int} {layout : LayoutFile}

def pieceEnd (pieceLength : Int) (layout : LayoutFile) (p : Int) : Int :=
  min (p * pieceLength - 1) (layout.offset + layout.size - 1) - layout.offset

/-- A piece of the file begins behind the piece before it, and has bytes of the file. -/
theorem pieceInFile_bounds (hlength : 0 < pieceLength) (hsize : 0 < layout.size) {p : Int}
    (hfirst : layout.offset / pieceLength ≤ p)
    (hlast : p ≤ (layout.offset + layout.size - 1) / pieceLength) :
    pieceEnd pieceLength layout p < (pieceInFile pieceLength layout p).1 ∧
      0 ≤ (pieceInFile pieceLength layout p).1 ∧
      (pieceInFile pieceLength layout p).1 ≤ (pieceInFile pieceLength layout p).2 ∧
      (pieceInFile pieceLength layout p).2 = pieceEnd pieceLength layout (p + 1) := by
  have hbegins : p * pieceLength ≤ layout.offset + layout.size - 1 :=
    Int.mul_le_of_le_ediv hlength hlast
  have hends : layout.offset < (p + 1) * pieceLength :=
    calc layout.offset < (layout.offset / pieceLength + 1) * pieceLength :=
          Int.lt_ediv_add_one_mul_self _ hlength
      _ ≤ (p + 1) * pieceLength := by
          refine mul_le_mul_of_nonneg_right ?_ hlength.le
          omega
  have hnext : (p + 1) * pieceLength = p * pieceLength + pieceLength := by ring
  unfold pieceEnd pieceInFile
  refine ⟨?_, ?_, ?_, rfl⟩
  · omega
  · omega
  · omega

structure ReadOff (pieceLength : Int) (layout : LayoutFile) (p : Int)
    (acc : List (Int × Int) × Int) : Prop where
  apart : Spaced 0 (pieceEnd pieceLength layout p) acc.1
  sum : acc.2 = total acc.1

theorem ReadOff.next (pieces : List Bool) (hlength : 0 < pieceLength) (hsize : 0 < layout.size) {p : Nat}
    {acc : List (Int × Int) × Int} (hread : ReadOff pieceLength layout p acc)
    (hfirst : layout.offset / pieceLength ≤ p)
    (hlast : p ≤ (layout.offset + layout.size - 1) / pieceLength) :
    ReadOff pieceLength layout (p + 1 : Int)
      (if pieces[p]? = some true then
        (pushSegment acc.1 (pieceInFile pieceLength layout p).1
            (pieceInFile pieceLength layout p).2,
          acc.2 + ((pieceInFile pieceLength layout p).2 -
            (pieceInFile pieceLength layout p).1 + 1))
      else acc) := by
  obtain ⟨hbehind, hstart, horder, hfinish⟩ :=
    pieceInFile_bounds hlength hsize hfirst hlast
  split
  · constructor
    · rw [← hfinish]
      exact apart_pushSegment hread.apart hbehind hstart horder
    · rw [total_pushSegment, hread.sum]
  · exact ⟨hread.apart.mono (by omega), hread.sum⟩

theorem segmentsOf_induction (pieces : List Bool) (hlength : 0 < pieceLength)
    (hoffset : 0 ≤ layout.offset) (hsize : 0 < layout.size)
    {P : Int → List (Int × Int) × Int → Prop} (hstart : P (layout.offset / pieceLength) ([], 0))
    (hstep : ∀ (p : Nat) (acc : List (Int × Int) × Int), layout.offset / pieceLength ≤ p →
      p ≤ (layout.offset + layout.size - 1) / pieceLength → P p acc →
        P (p + 1) (if pieces[p]? = some true then
          (pushSegment acc.1 (pieceInFile pieceLength layout p).1
              (pieceInFile pieceLength layout p).2,
            acc.2 + ((pieceInFile pieceLength layout p).2 -
              (pieceInFile pieceLength layout p).1 + 1))
        else acc)) :
    P ((layout.offset + layout.size - 1) / pieceLength + 1)
      (segmentsOf pieceLength pieces layout) := by
  have hfirst : 0 ≤ layout.offset / pieceLength := Int.ediv_nonneg hoffset hlength.le
  have hle : layout.offset / pieceLength ≤ (layout.offset + layout.size - 1) / pieceLength :=
    Int.ediv_le_ediv hlength (by omega)
  have hfold : ∀ (n p : Nat) (acc : List (Int × Int) × Int), layout.offset / pieceLength ≤ p →
      (p + n : Int) ≤ (layout.offset + layout.size - 1) / pieceLength + 1 → P p acc →
        P (p + n : Int) ((List.range' p n).foldl (fun acc (p : Nat) =>
          if pieces[p]? = some true then
            (pushSegment acc.1 (pieceInFile pieceLength layout p).1
                (pieceInFile pieceLength layout p).2,
              acc.2 + ((pieceInFile pieceLength layout p).2 -
                (pieceInFile pieceLength layout p).1 + 1))
          else acc) acc) := by
    intro n
    induction n with
    | zero =>
        intro p acc _ _ hacc
        simpa using hacc
    | succ n ih =>
        intro p acc hlow hhigh hacc
        have hnext := hstep p acc hlow (by omega) hacc
        have hrest := ih (p + 1) _ (by omega) (by push_cast at hhigh ⊢; omega)
          (by exact_mod_cast hnext)
        have hsum : ((p + 1 : Nat) : Int) + n = p + (n + 1 : Nat) := by
          push_cast
          ring
        rw [List.range'_succ, List.foldl_cons]
        rwa [hsum] at hrest
  have hstart' : P ((layout.offset / pieceLength).toNat : Nat) ([], 0) := by
    rwa [Int.toNat_of_nonneg hfirst]
  have hrun := hfold (((layout.offset + layout.size - 1) / pieceLength).toNat + 1 -
    (layout.offset / pieceLength).toNat) _ _ (by omega) (by omega) hstart'
  have hend : ((layout.offset / pieceLength).toNat + (((layout.offset + layout.size - 1) /
      pieceLength).toNat + 1 - (layout.offset / pieceLength).toNat : Nat) : Int) =
      (layout.offset + layout.size - 1) / pieceLength + 1 := by
    omega
  rw [hend] at hrun
  exact hrun

theorem pieceEnd_last (hlength : 0 < pieceLength) :
    pieceEnd pieceLength layout ((layout.offset + layout.size - 1) / pieceLength + 1) =
      layout.size - 1 := by
  have hbehind : layout.offset + layout.size - 1 <
      ((layout.offset + layout.size - 1) / pieceLength + 1) * pieceLength :=
    Int.lt_ediv_add_one_mul_self _ hlength
  unfold pieceEnd
  omega

/-- **What the bitmap gives**: intervals of the file that keep apart, and their bytes. -/
theorem segmentsOf_spec (pieces : List Bool) (hlength : 0 < pieceLength) (hoffset : 0 ≤ layout.offset)
    (hsize : 0 < layout.size) :
    Spaced 0 (layout.size - 1) (segmentsOf pieceLength pieces layout).1 ∧
      (segmentsOf pieceLength pieces layout).2 =
        total (segmentsOf pieceLength pieces layout).1 := by
  have hread : ReadOff pieceLength layout _ (segmentsOf pieceLength pieces layout) :=
    segmentsOf_induction pieces hlength hoffset hsize ⟨.nil, rfl⟩
      fun _ _ hfirst hlast hacc => hacc.next pieces hlength hsize hfirst hlast
  rw [← pieceEnd_last hlength]
  exact ⟨hread.apart, hread.sum⟩

/-! ### The bytes that are there -/

/-- The bytes of the file that lie in pieces whose bit is set. -/
def verifiedBytes (pieceLength : Int) (pieces : List Bool) (layout : LayoutFile) : Set Int :=
  {x | 0 ≤ x ∧ x < layout.size ∧
    pieces[((layout.offset + x) / pieceLength).toNat]? = some true}

theorem positions_pushSegment {segments : List (Int × Int)} {lo hi start finish : Int}
    (hapart : Spaced lo hi segments) (horder : start ≤ finish) :
    positions (pushSegment segments start finish) =
      positions segments ∪ Set.Icc start finish := by
  unfold pushSegment
  cases hlast : segments.getLast? with
  | none =>
      rw [List.getLast?_eq_none_iff.mp hlast]
      simp
  | some segment =>
      obtain ⟨first, last⟩ := segment
      obtain ⟨front, rfl⟩ := List.getLast?_eq_some_iff.mp hlast
      obtain ⟨-, hle, -⟩ := hapart.within (first, last) (by simp)
      simp only
      split
      next htouch =>
        rw [List.dropLast_concat]
        ext x
        simp only [positions_append, positions_singleton, Set.mem_union, Set.mem_Icc, or_assoc]
        refine or_congr_right ?_
        simp only at hle
        omega
      next => rw [positions_append (front ++ [(first, last)]), positions_singleton]

theorem piece_of_byte (hlength : 0 < pieceLength) {p x : Int}
    (hlast : p ≤ (layout.offset + layout.size - 1) / pieceLength)
    (hlow : pieceEnd pieceLength layout p < x) (hhigh : x ≤ pieceEnd pieceLength layout (p + 1)) :
    (layout.offset + x) / pieceLength = p := by
  have hbegins : p * pieceLength ≤ layout.offset + layout.size - 1 :=
    Int.mul_le_of_le_ediv hlength hlast
  have hnext : (p + 1) * pieceLength = p * pieceLength + pieceLength := by ring
  unfold pieceEnd at hlow hhigh
  rw [Int.ediv_eq_iff_of_pos hlength]
  constructor <;> omega

theorem positions_next (pieces : List Bool) (hlength : 0 < pieceLength) (hsize : 0 < layout.size)
    {p : Nat} {acc : List (Int × Int) × Int} (hread : ReadOff pieceLength layout p acc)
    (hcovers : positions acc.1 =
      verifiedBytes pieceLength pieces layout ∩ Set.Iic (pieceEnd pieceLength layout p))
    (hfirst : layout.offset / pieceLength ≤ p)
    (hlast : p ≤ (layout.offset + layout.size - 1) / pieceLength) :
    positions (if pieces[p]? = some true then
        (pushSegment acc.1 (pieceInFile pieceLength layout p).1
            (pieceInFile pieceLength layout p).2,
          acc.2 + ((pieceInFile pieceLength layout p).2 -
            (pieceInFile pieceLength layout p).1 + 1))
      else acc).1 =
      verifiedBytes pieceLength pieces layout ∩ Set.Iic (pieceEnd pieceLength layout (p + 1)) := by
  obtain ⟨hbehind, hstart, horder, hfinish⟩ := pieceInFile_bounds hlength hsize hfirst hlast
  have hpiece : ∀ x, pieceEnd pieceLength layout p < x →
      x ≤ pieceEnd pieceLength layout (p + 1) →
        pieces[((layout.offset + x) / pieceLength).toNat]? = pieces[p]? := by
    intro x hlow hhigh
    rw [piece_of_byte hlength hlast hlow hhigh, Int.toNat_natCast]
  have hsized : pieceEnd pieceLength layout (p + 1) < layout.size := by
    unfold pieceEnd
    omega
  have hbegins : (pieceInFile pieceLength layout p).1 =
      max (pieceEnd pieceLength layout p + 1) 0 := by
    have hmul : p * pieceLength ≤ layout.offset + layout.size - 1 :=
      Int.mul_le_of_le_ediv hlength hlast
    unfold pieceInFile pieceEnd
    omega
  split
  next hset =>
    rw [positions_pushSegment hread.apart horder, hcovers, hfinish, hbegins]
    ext x
    simp only [verifiedBytes, Set.mem_union, Set.mem_inter_iff, Set.mem_ofPred_eq, Set.mem_Iic,
      Set.mem_Icc]
    constructor
    · rintro (⟨hverified, hle⟩ | ⟨hlow, hhigh⟩)
      · exact ⟨hverified, by omega⟩
      · exact ⟨⟨by omega, by omega, (hpiece x (by omega) hhigh).trans hset⟩, hhigh⟩
    · rintro ⟨hverified, hhigh⟩
      by_cases hle : x ≤ pieceEnd pieceLength layout p
      · exact Or.inl ⟨hverified, hle⟩
      · exact Or.inr ⟨by omega, hhigh⟩
  next hunset =>
    rw [hcovers]
    ext x
    simp only [verifiedBytes, Set.mem_inter_iff, Set.mem_ofPred_eq, Set.mem_Iic]
    constructor
    · rintro ⟨hverified, hle⟩
      exact ⟨hverified, by omega⟩
    · rintro ⟨hverified, hhigh⟩
      refine ⟨hverified, ?_⟩
      by_contra hnot
      rw [hpiece x (by omega) hhigh] at hverified
      exact hunset hverified.2.2

theorem positions_segmentsOf (pieces : List Bool) (hlength : 0 < pieceLength)
    (hoffset : 0 ≤ layout.offset) (hsize : 0 < layout.size) :
    positions (segmentsOf pieceLength pieces layout).1 =
      verifiedBytes pieceLength pieces layout := by
  have hnone : positions (([], 0) : List (Int × Int) × Int).1 =
      verifiedBytes pieceLength pieces layout ∩
        Set.Iic (pieceEnd pieceLength layout (layout.offset / pieceLength)) := by
    have hfloor : layout.offset / pieceLength * pieceLength ≤ layout.offset :=
      Int.ediv_mul_le _ hlength.ne'
    rw [positions_nil, eq_comm, Set.eq_empty_iff_forall_notMem]
    rintro x ⟨⟨hlow, -⟩, hhigh⟩
    simp only [Set.mem_Iic, pieceEnd] at hhigh
    omega
  have hread := segmentsOf_induction pieces hlength hoffset hsize (P := fun p acc =>
    ReadOff pieceLength layout p acc ∧ positions acc.1 =
      verifiedBytes pieceLength pieces layout ∩ Set.Iic (pieceEnd pieceLength layout p))
    ⟨⟨.nil, rfl⟩, hnone⟩ fun p acc hfirst hlast hacc =>
      ⟨hacc.1.next pieces hlength hsize hfirst hlast,
        positions_next pieces hlength hsize hacc.1 hacc.2 hfirst hlast⟩
  obtain ⟨-, hcovers⟩ := hread
  rw [hcovers, pieceEnd_last hlength, Set.inter_eq_left]
  rintro x ⟨-, hlast, -⟩
  simp only [Set.mem_Iic]
  omega

/-- **The intervals of a file are exactly the bytes that are there**: they are the only intervals of
the file that keep apart and cover what lies in the pieces whose bit is set. What is counted is their
length, and it is the whole file exactly when they are what a completed file is given. -/
theorem recount_exact (t : Torrent) (info : TorrentInfo) (file : TaskFile)
    (hlayout : info.files[file.fileIndex.toNat]? = some layout) (hlength : 0 < info.pieceLength)
    (hoffset : 0 ≤ layout.offset) (hsize : 0 < layout.size) :
    Spaced 0 (layout.size - 1) (recount t info file).segments ∧
      positions (recount t info file).segments =
        verifiedBytes info.pieceLength t.pieces layout ∧
      (∀ l, Spaced 0 (layout.size - 1) l →
        positions l = verifiedBytes info.pieceLength t.pieces layout →
          l = (recount t info file).segments) ∧
      (recount t info file).totalDone = total (recount t info file).segments ∧
      ((recount t info file).totalDone = layout.size ↔
        (recount t info file).segments = [(0, layout.size - 1)]) ∧
      (completedFile { file with totalSize := layout.size }).segments = [(0, layout.size - 1)] := by
  have hsegments : (recount t info file).segments =
      (segmentsOf info.pieceLength t.pieces layout).1 := by
    simp only [recount, hlayout, if_neg (not_le.mpr hsize)]
  have hdone : (recount t info file).totalDone =
      (segmentsOf info.pieceLength t.pieces layout).2 := by
    simp only [recount, hlayout, if_neg (not_le.mpr hsize)]
  obtain ⟨hapart, hsum⟩ := segmentsOf_spec t.pieces hlength hoffset hsize
  have hcovers := positions_segmentsOf t.pieces hlength hoffset hsize
  rw [hsegments, hdone]
  refine ⟨hapart, hcovers, ?_, hsum, ?_, ?_⟩
  · intro l hl hsame
    exact hl.eq_of_positions hapart (hsame.trans hcovers.symm)
  · rw [hsum, ← hapart.total_eq_iff (by omega)]
    omega
  · simp only [completedFile, if_pos hsize]

end Pieces

def threePieces : TorrentInfo :=
  { files := [{ path := "f", offset := 2, size := 8 }], pieceLength := 4, numPieces := 3 }

/-- The piece in the middle is missing. -/
theorem recount_exact_across :
    Spaced 0 7 [(0, 1), (6, 7)] ∧
      positions [(0, 1), (6, 7)] =
        verifiedBytes 4 [true, false, true] { path := "f", offset := 2, size := 8 } := by
  have hsegments : (recount { id := 0, pieces := [true, false, true] } threePieces
      { fileIndex := 0 }).segments = [(0, 1), (6, 7)] := by decide +kernel
  have hexact := recount_exact { id := 0, pieces := [true, false, true] } threePieces
    { fileIndex := 0 } rfl (by decide) (by decide)
    (by decide)
  rw [hsegments] at hexact
  exact ⟨hexact.1, hexact.2.1⟩

end DownloadWrapper
