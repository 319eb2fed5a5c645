import DownloadWrapper.Store.FileMap

/-!
# Runs of the file store

Over any calls the store answers as its map does. What is read is what was written last, and what was
deleted once stays hidden and as it is.
-/

namespace DownloadWrapper

/-- A call of the store, or an `UPDATE` of `is_delete` on a row of `tasks`. -/
inductive FileCall where
  | save (files : List TaskFile)
  | upsert (file : TaskFile)
  | update (taskId : String) (fileIndex : Int) (file : TaskFile)
  | erase (taskId : String)
  | find (taskId : String) (fileIndex : Int)
  | get (taskId : String)
  | markTask (old new : Task)

inductive FileAnswer where
  | done (success : Bool)
  | erased (count : Nat)
  | found (file : Option TaskFile)
  | listed (files : List TaskFile)
  | silent

def accepted (files : List TaskFile) : List TaskFile :=
  files.takeWhile fun file => ¬ (file.taskId = "" ∨ file.fileIndex < 0)

namespace FileCall

/-- The texts of a call hold no NUL, and its priorities fit into their type. -/
def Plain : FileCall → Prop
  | .save files => ∀ file ∈ files, file.Plain
  | .upsert file => file.Plain
  | .update taskId fileIndex file => (file.under taskId fileIndex).Plain
  | .erase taskId => NulFree taskId
  | .find taskId _ => NulFree taskId
  | .get taskId => NulFree taskId
  | .markTask _ _ => True

def Names : FileCall → String × Int → Prop
  | .save files, k => ∃ file ∈ files, file.key = k
  | .upsert file, k => file.key = k
  | .update taskId fileIndex _, k => (taskId, fileIndex) = k
  | .erase taskId, k => k.1 = taskId
  | .markTask _ new, k => k.1 = new.taskId
  | .find _ _, _ => False
  | .get _, _ => False

def Saves : FileCall → Prop
  | .save _ | .upsert _ => True
  | _ => False

def effect : FileCall → FileMap → FileMap
  | .save files, m => (accepted files).foldl (fun m file => m.put file) m
  | .upsert file, m => if file.valid then m.put file else m
  | .update taskId fileIndex file, m =>
      if (file.under taskId fileIndex).valid then m.replace (file.under taskId fileIndex) else m
  | .erase taskId, m => m.bury fun k => k.1 = taskId
  | .markTask old new, m =>
      if (new.taskProtocol = .http ∨ new.taskProtocol = .torrent) ∧ new.isDelete ∧ ¬ old.isDelete then
        m.bury fun k => k.1 = new.taskId
      else m
  | .find _ _, m => m
  | .get _, m => m

def writes : FileCall → FileAnswer → List TaskFile
  | .save files, _ => accepted files
  | .upsert file, .done true => [file]
  | .update taskId fileIndex file, .done true => [file.under taskId fileIndex]
  | _, _ => []

end FileCall

namespace FileTable

def serve : FileCall → FileTable → FileAnswer × FileTable
  | .save files, t => (.done (t.save files).1, (t.save files).2)
  | .upsert file, t => (.done (t.upsert file).1, (t.upsert file).2)
  | .update taskId fileIndex file, t =>
      (.done (t.update taskId fileIndex file).1, (t.update taskId fileIndex file).2)
  | .erase taskId, t => (.erased (t.erase taskId).1, (t.erase taskId).2)
  | .find taskId fileIndex, t => (.found (t.find taskId fileIndex), t)
  | .get taskId, t => (.listed (t.get taskId), t)
  | .markTask old new, t => (.silent, t.syncTaskFileDeletion old new)

end FileTable

/-- The rows, and the files that were written, the latest first. -/
structure FileLedger where
  table : FileTable := .empty
  written : List TaskFile := []

namespace FileLedger

def serve (l : FileLedger) (call : FileCall) : FileLedger where
  table := (l.table.serve call).2
  written := (call.writes (l.table.serve call).1).reverse ++ l.written

def run (calls : List FileCall) : FileLedger := calls.foldl serve {}

def latest (l : FileLedger) (k : String × Int) : Option TaskFile := l.written.find? fun file => file.key = k

end FileLedger

theorem fileIndex_of_readTaskFile {row : FileRow} {taskId : String} {file : TaskFile}
    (h : readTaskFile row taskId = some file) : file.fileIndex = row.fileIndex := by
  rw [readTaskFile] at h
  split at h
  · rw [← Option.some.inj h]
  · simp at h

namespace FileTable

variable {t : FileTable}

theorem toMap_eq_some_iff {taskId : String} {fileIndex : Int} {file : TaskFile} :
    t.toMap (taskId, fileIndex) = some ⟨file, false⟩ ↔
      ∃ row ∈ t, row.taskId = taskId ∧ row.fileIndex = fileIndex ∧ row.isDelete = false ∧
        readTaskFile row taskId = some file := by
  simp only [toMap, FileRow.entry, Option.bind_eq_some_iff, KeyedList.find?_eq_some_iff,
    Option.map_eq_some_iff, FileRow.key, Prod.mk.injEq, Tombstoned.mk.injEq]
  constructor
  · rintro ⟨row, ⟨hrow, rfl, rfl⟩, _, hread, rfl, hdeleted⟩
    exact ⟨row, hrow, rfl, rfl, hdeleted, hread⟩
  · rintro ⟨row, hrow, rfl, rfl, hdeleted, hread⟩
    exact ⟨row, ⟨hrow, rfl, rfl⟩, file, hread, rfl, hdeleted⟩

/-- **`get` lists what is not deleted.** -/
theorem mem_get_iff {taskId : String} (htext : NulFree taskId) {file : TaskFile} :
    file ∈ t.get taskId ↔ t.toMap (taskId, file.fileIndex) = some ⟨file, false⟩ := by
  simp only [toMap_eq_some_iff, get, htext.cStr_eq, List.mem_filterMap, List.mem_insertionSort,
    List.mem_filter, Bool.and_eq_true, decide_eq_true_eq, Bool.not_eq_true', KeyedList.mem_def]
  constructor
  · rintro ⟨row, ⟨hrow, hid, hdeleted⟩, hread⟩
    exact ⟨row, hrow, hid, (fileIndex_of_readTaskFile hread).symm, hdeleted, hread⟩
  · rintro ⟨row, hrow, hid, -, hdeleted, hread⟩
    exact ⟨row, ⟨hrow, hid, hdeleted⟩, hread⟩

/-- **`get` lists by strictly increasing index.** -/
theorem pairwise_get (t : FileTable) (taskId : String) :
    (t.get taskId).Pairwise fun file other => file.fileIndex < other.fileIndex := by
  rw [get, List.pairwise_filterMap]
  refine (KeyedList.pairwise_lt_insertionSort FileRow.fileIndex ?_).imp ?_
  · rw [List.pairwise_filter]
    refine (List.pairwise_map.mp t.nodup).imp fun hne hrow hother heq => ?_
    simp only [Bool.and_eq_true, decide_eq_true_eq] at hrow hother
    exact hne (Prod.ext (hrow.1.trans hother.1.symm) heq)
  · intro row other hlt file hfile file' hfile'
    rw [fileIndex_of_readTaskFile hfile, fileIndex_of_readTaskFile hfile']
    exact hlt

theorem find_eq_some_iff {taskId : String} (htext : NulFree taskId) {fileIndex : Int} {file : TaskFile} :
    t.find taskId fileIndex = some file ↔ file ∈ t.get taskId ∧ file.fileIndex = fileIndex := by
  rw [mem_get_iff htext]
  simp only [toMap_eq_some_iff, find, htext.cStr_eq, Option.bind_eq_some_iff, Option.filter_eq_some_iff,
    KeyedList.find?_eq_some_iff, FileRow.key, Prod.mk.injEq, Bool.not_eq_true']
  constructor
  · rintro ⟨row, ⟨⟨hrow, hid, rfl⟩, hdeleted⟩, hread⟩
    have hindex := fileIndex_of_readTaskFile hread
    exact ⟨⟨row, hrow, hid, hindex.symm, hdeleted, hread⟩, hindex⟩
  · rintro ⟨⟨row, hrow, hid, hindex, hdeleted, hread⟩, rfl⟩
    exact ⟨row, ⟨⟨hrow, hid, hindex⟩, hdeleted⟩, hread⟩

/-! ### One call -/

theorem toMap_save {files : List TaskFile} (hplain : ∀ file ∈ files, file.Plain) (hsound : t.Sound) :
    (t.save files).2.toMap = (accepted files).foldl (fun m file => m.put file) t.toMap ∧
      (t.save files).2.Sound := by
  induction files generalizing t with
  | nil => exact ⟨rfl, hsound⟩
  | cons file files ih =>
      have hfile := hplain file List.mem_cons_self
      rw [save, accepted]
      by_cases hrefused : file.taskId = "" ∨ file.fileIndex < 0
      · rw [if_pos hrefused, List.takeWhile_cons_of_neg (by simpa [imp_iff_not_or] using hrefused)]
        exact ⟨rfl, hsound⟩
      · rw [if_neg hrefused, List.takeWhile_cons_of_pos (by simpa using hrefused), List.foldl_cons,
          ← toMap_insertOrUpdate hfile hsound]
        exact ih (fun other hother => hplain other (List.mem_cons_of_mem _ hother))
          (hsound.insertOrUpdate hfile)

theorem accepted_of_valid {file : TaskFile} (h : file.valid = true) : accepted [file] = [file] := by
  have hnot : ¬ (file.taskId = "" ∨ file.fileIndex < 0) := by
    intro hrefused
    rw [TaskFile.valid, if_pos (by tauto)] at h
    simp at h
  rw [accepted, List.takeWhile_cons_of_pos (by simpa using hnot), List.takeWhile_nil]

theorem toMap_upsert {file : TaskFile} (hplain : file.Plain) (hsound : t.Sound) :
    (t.upsert file).2.toMap = (FileCall.upsert file).effect t.toMap ∧ (t.upsert file).2.Sound := by
  rw [upsert, FileCall.effect]
  split
  next hvalid =>
    obtain ⟨hmap, hsound'⟩ := toMap_save (by simpa using hplain : ∀ other ∈ [file], other.Plain) hsound
    rw [accepted_of_valid hvalid] at hmap
    exact ⟨hmap, hsound'⟩
  next => exact ⟨rfl, hsound⟩

theorem toMap_update {taskId : String} {fileIndex : Int} {file : TaskFile}
    (hplain : (file.under taskId fileIndex).Plain) (hsound : t.Sound) :
    (t.update taskId fileIndex file).2.toMap =
        (FileCall.update taskId fileIndex file).effect t.toMap ∧
      (t.update taskId fileIndex file).2.Sound := by
  have hkey : (cStr taskId, fileIndex) = (file.under taskId fileIndex).key :=
    congrArg (·, fileIndex) hplain.taskId.cStr_eq
  rw [update, FileCall.effect, hkey]
  by_cases hvalid : (file.under taskId fileIndex).valid = true
  · rw [if_neg (not_not.mpr hvalid), if_pos hvalid]
    exact ⟨toMap_modify hplain hsound, hsound.modify hplain⟩
  · rw [if_pos hvalid, if_neg hvalid]
    exact ⟨rfl, hsound⟩

/-- **A call does to the rows what it does to the map.** -/
theorem toMap_serve {call : FileCall} (hplain : call.Plain) (hsound : t.Sound) :
    (t.serve call).2.toMap = call.effect t.toMap ∧ (t.serve call).2.Sound := by
  cases call with
  | save files => exact toMap_save hplain hsound
  | upsert file => exact toMap_upsert hplain hsound
  | update taskId fileIndex file => exact toMap_update hplain hsound
  | erase taskId =>
      rw [serve, erase, NulFree.cStr_eq hplain]
      exact ⟨toMap_markDeleted t taskId, hsound.markDeleted taskId⟩
  | find taskId fileIndex => exact ⟨rfl, hsound⟩
  | get taskId => exact ⟨rfl, hsound⟩
  | markTask old new =>
      rw [serve, syncTaskFileDeletion, FileCall.effect]
      split
      · exact ⟨toMap_markDeleted t new.taskId, hsound.markDeleted new.taskId⟩
      · exact ⟨rfl, hsound⟩

theorem upsert_answer (t : FileTable) (file : TaskFile) : (t.upsert file).1 = file.valid := by
  rw [upsert]
  split
  next hvalid =>
    have hnot : ¬ (file.taskId = "" ∨ file.fileIndex < 0) := by
      intro hrefused
      rw [TaskFile.valid, if_pos (by tauto)] at hvalid
      simp at hvalid
    rw [save, if_neg hnot, save, hvalid]
  next hvalid => exact (Bool.eq_false_iff.mpr hvalid).symm

theorem visible_of_update_miss {taskId : String} {fileIndex : Int} {file : TaskFile}
    (htext : NulFree taskId) (hmiss : (t.update taskId fileIndex file).1 = false)
    (hvalid : (file.under taskId fileIndex).valid = true) :
    t.toMap.visible (taskId, fileIndex) = none := by
  rw [update, if_neg (not_not.mpr hvalid), htext.cStr_eq] at hmiss
  by_contra hvisible
  obtain ⟨value, hvalue⟩ := Option.ne_none_iff_exists'.mp hvisible
  obtain ⟨row, hrow, rfl, rfl, hdeleted, -⟩ := toMap_eq_some_iff.mp (TombMap.visible_eq_some_iff.mp hvalue)
  simp [show t.find? (row.taskId, row.fileIndex) = some row from KeyedList.find?_key hrow, hdeleted] at hmiss

end FileTable

namespace FileMap

def Latest (written : List TaskFile) (m : FileMap) : Prop :=
  ∀ k value, m k = some ⟨value, false⟩ →
    ∃ file, (written.find? fun file => file.key = k) = some file ∧ value = file.readBack value.isRead

variable {m : FileMap} {written : List TaskFile}

theorem Latest.alter (h : Latest written m) {file : TaskFile} {f : Option TaskFile → Option (Tombstoned TaskFile)}
    (hf : ∀ old value, f old = some ⟨value, false⟩ → value = file.readBack value.isRead) :
    Latest (file :: written) (m.alter file.key f) := by
  intro k value hvalue
  obtain ⟨rfl, -, hnew⟩ | ⟨hne, hold⟩ := TombMap.of_alter hvalue
  · exact ⟨file, List.find?_cons_of_pos (by simp), hf _ _ hnew⟩
  · obtain ⟨before, hbefore, heq⟩ := h k value hold
    exact ⟨before, by rw [List.find?_cons_of_neg (by simpa using hne.symm), hbefore], heq⟩

theorem Latest.put (h : Latest written m) (file : TaskFile) : Latest (file :: written) (m.put file) := by
  refine h.alter fun old value hvalue => ?_
  obtain ⟨rfl, -⟩ := Tombstoned.mk.inj (Option.some.inj hvalue)
  rfl

theorem Latest.foldl_put (h : Latest written m) (files : List TaskFile) :
    Latest (files.reverse ++ written) (files.foldl (fun m file => m.put file) m) := by
  induction files generalizing m written with
  | nil => exact h
  | cons file files ih =>
      rw [List.foldl_cons, List.reverse_cons, List.append_assoc]
      exact ih (h.put file)

theorem Latest.replace (h : Latest written m) (file : TaskFile) :
    Latest (file :: written) (m.replace file) := by
  refine h.alter fun old value hvalue => ?_
  obtain ⟨_, -, heq⟩ := Option.map_eq_some_iff.mp hvalue
  obtain ⟨rfl, -⟩ := Tombstoned.mk.inj heq
  rfl

theorem Latest.bury (h : Latest written m) (p : String × Int → Bool) : Latest written (m.bury p) :=
  fun k value hvalue => h k value (TombMap.of_visible_bury hvalue)

theorem replace_of_visible_none {file : TaskFile} (h : m.visible file.key = none) : m.replace file = m := by
  rw [replace]
  by_cases hburied : m.Buried file.key
  · exact hburied.alter_self _
  · have hm : m file.key = none := by
      by_contra hsome
      obtain ⟨⟨value, deleted⟩, hentry⟩ := Option.ne_none_iff_exists'.mp hsome
      cases deleted with
      | true => exact hburied ⟨_, hentry, rfl⟩
      | false => simp [TombMap.visible_eq_some_iff.mpr hentry] at h
    rw [TombMap.alter_of_not hburied, hm]
    exact Function.update_eq_self_iff.mpr hm.symm

theorem Latest.serve {t : FileTable} (h : Latest written t.toMap) {call : FileCall} (hplain : call.Plain) :
    Latest ((call.writes (t.serve call).1).reverse ++ written) (call.effect t.toMap) := by
  cases call with
  | save files => exact h.foldl_put (accepted files)
  | upsert file =>
      rw [FileTable.serve, t.upsert_answer, FileCall.effect]
      cases hvalid : file.valid with
      | true => exact h.put file
      | false => exact h
  | update taskId fileIndex file =>
      rw [FileTable.serve, FileCall.effect]
      by_cases hvalid : (file.under taskId fileIndex).valid = true
      · rw [if_pos hvalid]
        cases hanswer : (t.update taskId fileIndex file).1 with
        | true => exact h.replace (file.under taskId fileIndex)
        | false =>
            rw [replace_of_visible_none (FileTable.visible_of_update_miss hplain.taskId hanswer hvalid)]
            exact h
      · rw [if_neg hvalid, FileTable.update, if_pos hvalid]
        exact h
  | erase taskId => exact h.bury fun k => k.1 = taskId
  | find taskId fileIndex => exact h
  | get taskId => exact h
  | markTask old new =>
      rw [FileCall.effect]
      split
      · exact h.bury fun k => k.1 = new.taskId
      · exact h

theorem put_of_ne {file : TaskFile} {k : String × Int} (h : file.key ≠ k) (m : FileMap) : m.put file k = m k :=
  TombMap.alter_of_ne h.symm _ m

theorem foldl_put_of_ne {files : List TaskFile} {k : String × Int} (h : ∀ file ∈ files, file.key ≠ k)
    (m : FileMap) : files.foldl (fun m file => m.put file) m k = m k := by
  induction files generalizing m with
  | nil => rfl
  | cons file files ih =>
      rw [List.foldl_cons, ih fun other hother => h other (List.mem_cons_of_mem _ hother)]
      exact put_of_ne (h file List.mem_cons_self) m

/-- **A call changes no key but those it names.** -/
theorem effect_of_not_names {call : FileCall} {k : String × Int} (h : ¬ call.Names k) (m : FileMap) :
    call.effect m k = m k := by
  cases call with
  | save files =>
      refine foldl_put_of_ne (fun file hfile heq => h ⟨file, ?_, heq⟩) m
      exact List.takeWhile_subset _ hfile
  | upsert file =>
      rw [FileCall.effect]
      split
      · exact put_of_ne h m
      · rfl
  | update taskId fileIndex file =>
      rw [FileCall.effect]
      split
      · exact TombMap.alter_of_ne (Ne.symm h) _ m
      · rfl
  | erase taskId =>
      have hother : ¬ k.1 = taskId := h
      exact TombMap.bury_of_not (p := fun k => k.1 = taskId) (decide_eq_false hother) m
  | find taskId fileIndex => rfl
  | get taskId => rfl
  | markTask old new =>
      have hother : ¬ k.1 = new.taskId := h
      rw [FileCall.effect]
      split
      · exact TombMap.bury_of_not (p := fun k => k.1 = new.taskId) (decide_eq_false hother) m
      · rfl

theorem foldl_put_of_buried {k : String × Int} (files : List TaskFile) (h : m.Buried k) :
    files.foldl (fun m file => m.put file) m k = m k := by
  induction files generalizing m with
  | nil => rfl
  | cons file files ih =>
      have hkept : m.put file k = m k := h.alter _ _
      have hburied : (m.put file).Buried k := by
        obtain ⟨e, hm, hdeleted⟩ := h
        exact ⟨e, hkept.trans hm, hdeleted⟩
      rw [List.foldl_cons, ih hburied, hkept]

/-- **A call leaves what is deleted alone.** -/
theorem effect_of_buried {k : String × Int} (h : m.Buried k) (call : FileCall) : call.effect m k = m k := by
  cases call with
  | save files => exact foldl_put_of_buried (accepted files) h
  | upsert file =>
      rw [FileCall.effect]
      split
      · exact h.alter _ _
      · rfl
  | update taskId fileIndex file =>
      rw [FileCall.effect]
      split
      · exact h.alter _ _
      · rfl
  | erase taskId => exact h.bury fun k => k.1 = taskId
  | find taskId fileIndex => rfl
  | get taskId => rfl
  | markTask old new =>
      rw [FileCall.effect]
      split
      · exact h.bury _
      · rfl

theorem foldl_effect_of_buried {k : String × Int} (h : m.Buried k) (calls : List FileCall) :
    calls.foldl (fun m call => call.effect m) m k = m k := by
  induction calls generalizing m with
  | nil => rfl
  | cons call calls ih =>
      have hkept := effect_of_buried h call
      have hburied : (call.effect m).Buried k := by
        obtain ⟨e, hm, hdeleted⟩ := h
        exact ⟨e, hkept.trans hm, hdeleted⟩
      rw [List.foldl_cons, ih hburied, hkept]

def Read (m : FileMap) (k : String × Int) : Prop := ∃ e, m k = some e ∧ e.value.isRead = true

theorem Read.put {k : String × Int} (h : m.Read k) (file : TaskFile) : (m.put file).Read k := by
  by_cases hk : k = file.key
  · subst hk
    by_cases hburied : m.Buried file.key
    · rw [FileMap.put, hburied.alter_self]
      exact h
    · obtain ⟨e, hm, hread⟩ := h
      refine ⟨_, TombMap.alter_self_of_not hburied _, ?_⟩
      simp [hm, hread, TaskFile.readBack]
  · obtain ⟨e, hm, hread⟩ := h
    exact ⟨e, (put_of_ne (Ne.symm hk) m).trans hm, hread⟩

/-- **A read mark is kept by what saves.** -/
theorem Read.effect {k : String × Int} (h : m.Read k) {call : FileCall} (hsaves : call.Saves) :
    (call.effect m).Read k := by
  cases call with
  | save files =>
      exact List.foldlRecOn (motive := fun m => FileMap.Read m k) (accepted files) _ h
        fun m hread file _ => hread.put file
  | upsert file =>
      rw [FileCall.effect]
      split
      · exact h.put file
      · exact h
  | update | erase | find | get | markTask => exact hsaves.elim

end FileMap

/-! ### Runs -/

namespace FileLedger

theorem run_append (calls later : List FileCall) : run (calls ++ later) = later.foldl serve (run calls) :=
  List.foldl_append

structure Faithful (l : FileLedger) : Prop where
  sound : l.table.Sound
  latest : FileMap.Latest l.written l.table.toMap

theorem Faithful.serve {l : FileLedger} (h : l.Faithful) {call : FileCall} (hplain : call.Plain) :
    (l.serve call).Faithful ∧ (l.serve call).table.toMap = call.effect l.table.toMap := by
  obtain ⟨hmap, hsound⟩ := FileTable.toMap_serve hplain h.sound
  refine ⟨⟨hsound, ?_⟩, hmap⟩
  change FileMap.Latest _ (l.table.serve call).2.toMap
  rw [hmap]
  exact h.latest.serve hplain

theorem Faithful.run {l : FileLedger} (h : l.Faithful) {calls : List FileCall}
    (hplain : ∀ call ∈ calls, call.Plain) :
    (calls.foldl FileLedger.serve l).Faithful ∧
      (calls.foldl FileLedger.serve l).table.toMap =
        calls.foldl (fun m call => call.effect m) l.table.toMap := by
  induction calls generalizing l with
  | nil => exact ⟨h, rfl⟩
  | cons call calls ih =>
      obtain ⟨hfaithful, hmap⟩ := h.serve (hplain call List.mem_cons_self)
      rw [List.foldl_cons, List.foldl_cons, ← hmap]
      exact ih hfaithful fun other hother => hplain other (List.mem_cons_of_mem _ hother)

theorem faithful_new : Faithful {} := by
  refine ⟨FileTable.sound_empty, fun k value hvalue => ?_⟩
  simp [FileTable.toMap] at hvalue

end FileLedger

structure RefinesMap (calls : List FileCall) : Prop where
  map : (FileLedger.run calls).table.toMap = calls.foldl (fun m call => call.effect m) fun _ => none
  get : ∀ taskId, NulFree taskId →
    ((FileLedger.run calls).table.get taskId).Pairwise (fun file other => file.fileIndex < other.fileIndex) ∧
      ∀ file, file ∈ (FileLedger.run calls).table.get taskId ↔
        (FileLedger.run calls).table.toMap (taskId, file.fileIndex) = some ⟨file, false⟩
  find : ∀ taskId fileIndex file, NulFree taskId →
    ((FileLedger.run calls).table.find taskId fileIndex = some file ↔
      file ∈ (FileLedger.run calls).table.get taskId ∧ file.fileIndex = fileIndex)
  latest : ∀ taskId, NulFree taskId → ∀ file ∈ (FileLedger.run calls).table.get taskId,
    ∃ written, (FileLedger.run calls).latest (taskId, file.fileIndex) = some written ∧
      file = { written with isRead := file.isRead, isDelete := false, dirty := false }
  frame : ∀ call : FileCall, call.Plain → ∀ k, ¬ call.Names k →
    (FileLedger.run (calls ++ [call])).table.toMap k = (FileLedger.run calls).table.toMap k
  kept : ∀ later : List FileCall, (∀ call ∈ later, call.Plain) → ∀ k,
    (FileLedger.run calls).table.toMap.Buried k →
      (FileLedger.run (calls ++ later)).table.toMap k = (FileLedger.run calls).table.toMap k
  read : ∀ call : FileCall, call.Plain → call.Saves → ∀ k, (FileLedger.run calls).table.toMap.Read k →
    (FileLedger.run (calls ++ [call])).table.toMap.Read k

/-- **The file store is a map with tombstones**, whatever is called. -/
theorem refinesMap_run (calls : List FileCall) (hplain : ∀ call ∈ calls, call.Plain) : RefinesMap calls := by
  have hfaithful : (FileLedger.run calls).Faithful := (FileLedger.faithful_new.run hplain).1
  have hstep : ∀ call : FileCall, call.Plain →
      (FileLedger.run (calls ++ [call])).table.toMap = call.effect (FileLedger.run calls).table.toMap := by
    intro call hcall
    rw [FileLedger.run_append]
    exact (hfaithful.serve hcall).2
  constructor
  · exact (FileLedger.faithful_new.run hplain).2
  · intro taskId htext
    exact ⟨FileTable.pairwise_get _ taskId, fun file => FileTable.mem_get_iff htext⟩
  · intro taskId fileIndex file htext
    exact FileTable.find_eq_some_iff htext
  · intro taskId htext file hfile
    exact hfaithful.latest _ file ((FileTable.mem_get_iff htext).mp hfile)
  · intro call hcall k hnot
    rw [hstep call hcall]
    exact FileMap.effect_of_not_names hnot _
  · intro later hlater k hburied
    rw [FileLedger.run_append, (FileLedger.Faithful.run hfaithful hlater).2]
    exact FileMap.foldl_effect_of_buried hburied later
  · intro call hcall hsaves k hread
    rw [hstep call hcall]
    exact hread.effect hsaves

def savedFiles : List FileCall :=
  [.save [{ taskId := "t", fileIndex := 1, name := "b" }, { taskId := "t", fileIndex := 0, name := "a" }],
    .update "t" 0 { name := "c", isRead := true }, .upsert { taskId := "t", fileIndex := 0, name := "d" },
    .get "t", .markTask { taskProtocol := .http, taskId := "t" }
      { taskProtocol := .http, taskId := "t", isDelete := true }]

theorem refinesMap_run_savedFiles : RefinesMap savedFiles := by
  refine refinesMap_run savedFiles fun call hcall => ?_
  have htask : NulFree "t" := by decide
  have hempty : NulFree "" := by decide
  have hplain : ∀ (index : Int) (name : String) (isRead : Bool), NulFree name →
      TaskFile.Plain { taskId := "t", fileIndex := index, name := name, isRead := isRead } :=
    fun _ _ _ hname => ⟨htask, hname, hempty, hempty, hempty, show -2 ^ 31 ≤ 4 ∧ 4 < 2 ^ 31 by decide⟩
  simp only [savedFiles, List.mem_cons, List.not_mem_nil, or_false] at hcall
  rcases hcall with rfl | rfl | rfl | rfl | rfl
  · intro file hfile
    simp only [List.mem_cons, List.not_mem_nil, or_false] at hfile
    rcases hfile with rfl | rfl
    · exact hplain 1 "b" false (by decide)
    · exact hplain 0 "a" false (by decide)
  · exact hplain 0 "c" true (by decide)
  · exact hplain 0 "d" false (by decide)
  · exact htask
  · exact True.intro

namespace Store

def fileMap (s : Store) : FileMap :=
  fun k => (s.taskFile.find? k).map fun row => ⟨row.readBack row.isRead, row.isDelete⟩

/-- **Saving a file is the same there.** -/
theorem fileMap_saveFile (s : Store) (file : TaskFile) : (s.saveFile file).fileMap = s.fileMap.put file := by
  have hinsert : ∀ row : TaskFile, row.key = file.key →
      fileMap { s with taskFile := s.taskFile.insert row } =
        Function.update s.fileMap file.key (some ⟨row.readBack row.isRead, row.isDelete⟩) := by
    intro row hkey
    funext k
    rw [fileMap, KeyedList.find?_insert, hkey]
    by_cases hk : k = file.key
    · rw [if_pos hk, hk, Function.update_self, Option.map_some]
    · rw [if_neg hk, Function.update_of_ne hk, fileMap]
  rw [saveFile, FileMap.put]
  cases hfind : s.taskFile.find? file.key with
  | none =>
      have hm : s.fileMap file.key = none := by rw [fileMap, hfind, Option.map_none]
      have hnot : ¬ s.fileMap.Buried file.key := by simp [TombMap.Buried, hm]
      rw [TombMap.alter_of_not hnot, hm]
      exact hinsert { file with dirty := false } rfl
  | some row =>
      have hm : s.fileMap file.key = some ⟨row.readBack row.isRead, row.isDelete⟩ := by
        rw [fileMap, hfind, Option.map_some]
      by_cases hdeleted : row.isDelete = true
      · have hburied : s.fileMap.Buried file.key := ⟨_, hm, hdeleted⟩
        rw [hburied.alter_self]
        exact congrArg fileMap (if_pos hdeleted)
      · have hnot : ¬ s.fileMap.Buried file.key := by
          rintro ⟨e, he, htrue⟩
          rw [hm, Option.some.injEq] at he
          exact hdeleted (by rw [← htrue, ← he])
        simp only [if_neg hdeleted]
        rw [TombMap.alter_of_not hnot, hm]
        exact hinsert { file with isRead := row.isRead || file.isRead, dirty := false } rfl

theorem fileMap_saveFiles (s : Store) (files : List TaskFile) :
    (s.saveFiles files).fileMap = (FileCall.save files).effect s.fileMap := by
  have haccepted : (files.takeWhile fun file => file.taskId ≠ "" && 0 ≤ file.fileIndex) = accepted files :=
    congrArg (List.takeWhile · files) (by
      funext file
      simp [Bool.decide_and])
  rw [saveFiles, haccepted, FileCall.effect]
  induction accepted files generalizing s with
  | nil => rfl
  | cons file files ih => rw [List.foldl_cons, List.foldl_cons, ih, fileMap_saveFile]

/-- **Reading the files of a task is the same there.** -/
theorem mem_filesOf_iff {s : Store} {taskId : String} {file : TaskFile} :
    file ∈ (s.filesOf taskId).map (fun row => row.readBack row.isRead) ↔
      s.fileMap (taskId, file.fileIndex) = some ⟨file, false⟩ := by
  simp only [filesOf, fileMap, List.mem_map, List.mem_insertionSort, List.mem_filter, Bool.and_eq_true,
    decide_eq_true_eq, Bool.not_eq_true', Option.map_eq_some_iff, KeyedList.find?_eq_some_iff,
    TaskFile.key, Prod.mk.injEq, Tombstoned.mk.injEq, KeyedList.mem_def]
  constructor
  · rintro ⟨row, ⟨hrow, rfl, hdeleted⟩, rfl⟩
    exact ⟨row, ⟨hrow, rfl, rfl⟩, rfl, hdeleted⟩
  · rintro ⟨row, ⟨hrow, hid, -⟩, rfl, hdeleted⟩
    exact ⟨row, ⟨hrow, hid, hdeleted⟩, rfl⟩

end Store

end DownloadWrapper
