import DownloadWrapper.Http.Beside
import DownloadWrapper.Http.Completion
import DownloadWrapper.Http.Transfer

/-!
# A replica of one version

What the parts of a sized download count is on disk, and it is one version's: the one whose validator
the task has. The same of an archive, whose counts the file never falls behind.
-/

namespace DownloadWrapper

open ByteFile TaskCtx

/-- The parts tile a file, long enough for the source, that holds of the source what they count. -/
structure Copied (source : List Byte) (total : Int) (extents : List Extent) (bytes : List Byte) :
    Prop where
  pos : 0 < total
  laid : Laid extents total
  length : (bytes.length : Int) = total
  enough : (source.length : Int) ≤ total
  copied : ∀ e ∈ extents, Copies bytes source e.start.toNat (e.start + e.done).toNat

namespace Copied

variable {source bytes data : List Byte} {total : Int} {extents : List Extent} {off : Nat}

theorem writeAt (h : Copied source total extents bytes) (hdata : data <+: source.drop off)
    (hroom : off + data.length ≤ bytes.length) :
    Copied source total extents (ByteFile.writeAt bytes off data) where
  pos := h.pos
  laid := h.laid
  length := by rw [length_writeAt_of_le bytes hroom, h.length]
  enough := h.enough
  copied e he := (h.copied e he).writeAt hdata

theorem count {t : TaskCtx} (h : Copied source total t.extents bytes) {i n : Nat}
    (hi : i < t.parts.length) (hn : (n : Int) ≤ (t.part i).size - (t.part i).done)
    (hcopy : Copies bytes source ((t.part i).start + (t.part i).done).toNat
      (((t.part i).start + (t.part i).done).toNat + n)) :
    Copied source total (t.modifyPart i fun p => { p with done := p.done + n }).extents bytes where
  pos := h.pos
  laid := laid_count h.laid hi hn
  length := h.length
  enough := h.enough
  copied e he := by
    rcases mem_extents_count he with he | rfl
    · exact h.copied e he
    have hmem : (t.part i).extent ∈ t.extents := List.mem_map_of_mem (part_mem hi)
    have hbounds := h.laid.bounds hmem
    have hcounted := h.laid.counted _ hmem
    have hold := h.copied _ hmem
    simp only [PartState.extent] at hbounds hcounted hold ⊢
    rw [show ((t.part i).start + ((t.part i).done + n)).toNat
      = ((t.part i).start + (t.part i).done).toNat + n by omega]
    exact hold.append hcopy

theorem eq_source (h : Copied source total extents bytes)
    (hfull : ∀ e ∈ extents, e.done = e.size) : bytes = source := by
  have hlength := h.length
  have henough := h.enough
  refine Copies.eq (fun i _ hi => ?_) (by omega)
  have hlow : (0 : Int) ≤ i := by omega
  obtain ⟨tile, htile, hlo, hhi⟩ := h.laid.tiles.exists_mem hlow (by omega)
  obtain ⟨e, he, rfl⟩ := List.mem_map.mp htile
  have hbounds := h.laid.bounds he
  have hsized := h.laid.sized e he
  have hdone := hfull e he
  simp only [Extent.range] at hlo hhi
  exact h.copied e he i (by omega) (by omega)

end Copied

section Replicates

variable {V : Type*} (R : Resource V) (v : V)

/-- The task has the validator of a version, and the file holds of it what the parts count. -/
structure Replicates (t : TaskCtx) (bytes : List Byte) : Prop where
  etag : t.etag = R.etag v
  path : t.fullFilePath ≠ ""
  full : FullWhenCompleted t
  copied : Copied (R.bytes v) t.totalSize t.extents bytes

structure Archived (path : String) (bytes : List Byte) (a : Archive) : Prop where
  etag : a.etag = R.etag v
  path : a.path = path
  copied : Copied (R.bytes v) a.totalSize a.extents bytes

end Replicates

variable {V : Type*} {R : Resource V} {v : V} {t t' : TaskCtx} {bytes : List Byte}

theorem Replicates.of_steady (h : Replicates R v t bytes) (hs : Steady t t')
    (hetag : t'.etag = t.etag) : Replicates R v t' bytes where
  etag := hetag.trans h.etag
  path := hs.fullFilePath.symm ▸ h.path
  full := h.full.of_steady h.copied.laid hs
  copied := by
    rw [hs.extents, hs.total h.copied.pos]
    exact h.copied

theorem Replicates.archived (h : Replicates R v t bytes) :
    Archived R v t.fullFilePath bytes (serializeResume t) where
  etag := h.etag
  path := rfl
  copied := by
    rw [h.copied.laid.extents_serializeResume]
    exact h.copied

theorem ArchivedPart.size_le_of_completed (q : ArchivedPart)
    (hcompleted : q.restore.status = .completed) : q.restore.size ≤ q.restore.done := by
  simp only [restore] at hcompleted ⊢
  by_contra hshort
  rw [if_neg fun hfull => hshort hfull.2] at hcompleted
  simp at hcompleted

theorem Archived.continued {path : String} {a : Archive} (h : Archived R v path bytes a)
    (hpath : path ≠ "") (t : TaskCtx) :
    Replicates R v (t.continueFrom (deserializeResume a)) bytes where
  etag := h.etag
  path := by
    rw [← h.path] at hpath
    exact hpath
  full p hp hcompleted := by
    obtain ⟨q, hq, rfl⟩ := List.mem_map.mp hp
    have hcounted := h.copied.laid.counted q.restore.extent (List.mem_map_of_mem hq)
    exact le_antisymm hcounted.2 (q.size_le_of_completed hcompleted)
  copied := by
    have hextents : (t.continueFrom (deserializeResume a)).extents = a.extents := by
      simp [extents, continueFrom, deserializeResume, Archive.extents]
    rw [hextents]
    exact h.copied

end DownloadWrapper
