import Mathlib.Data.List.Basic
import Mathlib.Data.List.GetD

/-!
# Files as byte lists

Positional writes and resizing, with the one fact every later proof reads off them: what the byte at
a given position is afterwards.
-/

namespace ByteFile

variable {β : Type*} [Inhabited β]

/-- Cut or extend to `size` bytes, new bytes being the default (a hole reads as zero). -/
def resize (bytes : List β) (size : Nat) : List β :=
  bytes.take size ++ List.replicate (size - bytes.length) default

/-- Write `data` at `off`, extending the file with a hole when it ends before `off`. -/
def writeAt (bytes : List β) (off : Nat) (data : List β) : List β :=
  if data = [] then bytes
  else (resize bytes (max bytes.length off)).take off ++ data ++ bytes.drop (off + data.length)

@[simp] theorem length_resize (bytes : List β) (size : Nat) : (resize bytes size).length = size := by
  simp only [resize, List.length_append, List.length_take, List.length_replicate]
  omega

theorem getElem?_resize (bytes : List β) {size i : Nat} (hi : i < size) (hb : i < bytes.length) :
    (resize bytes size)[i]? = bytes[i]? := by
  rw [resize, List.getElem?_append_left (by simp; omega), List.getElem?_take_of_lt hi]

@[simp] theorem writeAt_nil (bytes : List β) (off : Nat) : writeAt bytes off [] = bytes := by
  simp [writeAt]

theorem length_writeAt (bytes : List β) (off : Nat) {data : List β} (hdata : data ≠ []) :
    (writeAt bytes off data).length = max bytes.length (off + data.length) := by
  simp only [writeAt, if_neg hdata, List.length_append, List.length_take, length_resize,
    List.length_drop]
  omega

theorem length_writeAt_of_le (bytes : List β) {off : Nat} {data : List β}
    (h : off + data.length ≤ bytes.length) : (writeAt bytes off data).length = bytes.length := by
  by_cases hdata : data = []
  · simp [hdata]
  · rw [length_writeAt bytes off hdata]
    omega

theorem getElem?_writeAt_inside (bytes : List β) {off i : Nat} {data : List β} (hlo : off ≤ i)
    (hhi : i < off + data.length) : (writeAt bytes off data)[i]? = data[i - off]? := by
  have hdata : data ≠ [] := by
    rintro rfl
    simp at hhi
    omega
  have hfront : ((resize bytes (max bytes.length off)).take off).length = off := by
    rw [List.length_take, length_resize]
    omega
  rw [writeAt, if_neg hdata, List.getElem?_append_left (by
    simp only [List.length_append, hfront]
    exact hhi), List.getElem?_append_right (by omega), hfront]

theorem getElem?_writeAt_outside (bytes : List β) {off i : Nat} {data : List β}
    (hout : i < off ∨ off + data.length ≤ i) (hi : i < bytes.length) :
    (writeAt bytes off data)[i]? = bytes[i]? := by
  by_cases hdata : data = []
  · simp [hdata]
  have hfront : ((resize bytes (max bytes.length off)).take off).length = off := by
    rw [List.length_take, length_resize]
    omega
  rw [writeAt, if_neg hdata]
  rcases hout with hlt | hge
  · rw [List.append_assoc, List.getElem?_append_left (by omega), List.getElem?_take_of_lt hlt,
      getElem?_resize bytes (by omega) hi]
  · rw [List.getElem?_append_right (by simp; omega), List.getElem?_drop, List.length_append, hfront]
    congr 1
    omega

theorem writeAt_length (bytes data : List β) : writeAt bytes bytes.length data = bytes ++ data := by
  by_cases hdata : data = []
  · simp [hdata]
  · simp [writeAt, hdata, resize]

end ByteFile
