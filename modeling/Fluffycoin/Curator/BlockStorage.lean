import Fluffycoin.Alg.BlockFilename
import Fluffycoin.Curator.BlockIntegrator
import Fluffycoin.Utils.FileTools

/-!
# Storing blocks and loading them again

Model of `src/services/curator/fs/BlockStorage.cpp` and
`src/services/curator/events/LoadFromFs.cpp`: a block is written under the file name of its index,
and at the next start every file of the directory is handed to `addBlock` under the index its name
is read as.

* `loadFile_eq_some_iff`: a file is handed over under an index exactly when it has that index's
  name, the index has no more digits than the name has places, and there are data.
* **`stored_block_loads_iff`**: so a block that was written is loaded again exactly when its index
  is short enough and the directory is found where it was written to. `FileTools::listFiles` does
  not expand the `~` that `FileTools::write` expands, and the default directory starts with one
  (`DefaultPaths.h`).
-/

namespace Fluffycoin

open Std (ExtTreeMap)
open Fluffycoin.Alg

/-- The numbers of an index, as its file name has them. -/
def Index.numbers (i : Index) : BlockFilename.Numbers := ⟨i.recon, i.shard, i.block⟩

/-- `fs::BlockStorage`. -/
structure BlockStorage where
  dir : List Char := []

namespace BlockStorage

/-- The file of a block. -/
def file (s : BlockStorage) (i : Index) : List Char :=
  s.dir ++ '/' :: BlockFilename.get i.recon i.shard i.block

/-- `BlockStorage::readBlock`. -/
def readBlock (s : BlockStorage) (fs : FileSystem) (i : Index) : Bytes :=
  (FileTools.read fs (s.file i)).getD []

/-- `BlockStorage::writeBlock`. -/
def writeBlock (s : BlockStorage) (fs : FileSystem) (i : Index) (data : Bytes) :
    Bool × FileSystem :=
  FileTools.write fs (s.file i) data

/-- `BlockStorage::getFiles`. -/
def getFiles (s : BlockStorage) (fs : FileSystem) : Option (List (List Char)) :=
  FileTools.listFiles fs s.dir

end BlockStorage

namespace LoadFromFs

/-- `loadFile`: the call of `addBlock` it makes. -/
def loadFile (s : BlockStorage) (fs : FileSystem) (reloadFrom : UInt32) (file : List Char) :
    Option BlockIntegrator.Submission :=
  match BlockFilename.parse file ⟨0, 0, 0⟩ with
  | (false, _) => none
  | (true, n) =>
    if n.reconciliation < reloadFrom then none
    else
      let i : Index := ⟨n.reconciliation, n.shard, n.block⟩
      let blockData := s.readBlock fs i
      if blockData = [] then none else some ⟨blockData, i⟩

/-- `LoadFromFs::init`: the calls of `addBlock`, in order. The argument is not used. -/
def init (s : BlockStorage) (fs : FileSystem) (_reloadFrom : UInt32) :
    List BlockIntegrator.Submission :=
  match s.getFiles fs with
  | none => []
  | some files => files.filterMap (loadFile s fs 0)

end LoadFromFs

/-! ## One file -/

section Load

variable {s : BlockStorage} {fs fs' : FileSystem} {i : Index} {data : Bytes} {file : List Char}

theorem BlockStorage.file_eq (s : BlockStorage) (i : Index) :
    s.file i = s.dir ++ '/' :: i.numbers.get := rfl

/-- A shard number always has room. -/
theorem Index.inRange_numbers_iff (h : i.shard ≤ 63) :
    i.numbers.InRange ↔ i.recon < 100000000 ∧ i.block < 10000 := by
  have hshard : i.shard.toNat < 10 ^ 4 := by
    have hle := UInt32.le_iff_toNat_le.mp h
    exact hle.trans_lt (by decide)
  rw [UInt32.lt_iff_toNat_lt, UInt32.lt_iff_toNat_lt]
  exact ⟨fun hrange => ⟨hrange.1, hrange.2.2⟩, fun hlt => ⟨hlt.1, hshard, hlt.2⟩⟩

theorem slash_not_mem_get (n : BlockFilename.Numbers) : '/' ∉ n.get := by
  have hdigits : ∀ w k, '/' ∉ Decimal.padded w k := fun w k hmem => by
    have hdigit := Decimal.isDigit_of_mem_padded hmem
    revert hdigit
    decide
  have hext : '/' ∉ BlockFilename.extension := by decide
  simp only [BlockFilename.Numbers.get, BlockFilename.get, List.mem_append, List.mem_cons, not_or]
  exact ⟨⟨⟨hdigits _ _, by decide, hdigits _ _⟩, by decide, hdigits _ _⟩, hext⟩

/-- **A file is loaded under an index** if it has its name, the name is read back, and there is
something to read. -/
theorem loadFile_eq_some_iff :
    LoadFromFs.loadFile s fs 0 file = some ⟨data, i⟩ ↔
      file = i.numbers.get ∧ i.numbers.InRange ∧ s.readBlock fs i = data ∧ data ≠ [] := by
  have hzero : ∀ r : UInt32, ¬ r < 0 := fun r => UInt32.not_lt_zero
  constructor
  · intro h
    have hread := (BlockFilename.parse_exact file ⟨0, 0, 0⟩).2.2.2.1
    unfold LoadFromFs.loadFile at h
    cases hparse : BlockFilename.parse file ⟨0, 0, 0⟩ with
    | mk ok n =>
      cases ok with
      | false =>
        rw [hparse] at h
        cases h
      | true =>
        rw [hparse] at h hread
        simp only [if_neg (hzero _)] at h
        split at h
        · cases h
        · rename_i hne
          cases h
          exact ⟨(hread rfl).get.symm, (hread rfl).inRange, rfl, hne⟩
  · rintro ⟨rfl, hrange, hdata, hne⟩
    have hi : (⟨i.numbers.reconciliation, i.numbers.shard, i.numbers.block⟩ : Index) = i := rfl
    unfold LoadFromFs.loadFile
    simp only [BlockFilename.parse_get hrange, if_neg (hzero _), hi, hdata, if_neg hne]

/-- The directory is there under the name it is listed by, and the file is in it: either no `~` is
expanded, or a file of that name was there before. -/
def BlockStorage.Visible (s : BlockStorage) (fs : FileSystem) (i : Index) : Prop :=
  FileTools.isDir fs s.dir = true ∧
    (FileTools.expandTilde fs.home s.dir = s.dir ∨ s.file i ∈ fs.files)

theorem mem_init_iff {reloadFrom : UInt32} :
    (⟨data, i⟩ : BlockIntegrator.Submission) ∈ LoadFromFs.init s fs reloadFrom ↔
      (FileTools.isDir fs s.dir = true ∧ s.file i ∈ fs.files) ∧ i.numbers.InRange ∧
        s.readBlock fs i = data ∧ data ≠ [] := by
  rw [BlockStorage.file_eq, ← FileTools.mem_listFiles_iff (slash_not_mem_get _)]
  unfold LoadFromFs.init BlockStorage.getFiles
  cases hfiles : FileTools.listFiles fs s.dir with
  | none => exact iff_of_false List.not_mem_nil fun ⟨⟨l, hl, _⟩, _⟩ => by cases hl
  | some files =>
    simp only [List.mem_filterMap, loadFile_eq_some_iff]
    constructor
    · rintro ⟨file, hmem, rfl, hrest⟩
      exact ⟨⟨files, rfl, hmem⟩, hrest⟩
    · rintro ⟨⟨l, hl, hmem⟩, hrest⟩
      rw [← Option.some.inj hl] at hmem
      exact ⟨_, hmem, rfl, hrest⟩

/-- **When a stored block can be loaded again.** Its file name is read back as its index and the
next start hands it to the integrator under that index, exactly if the reconciliation number has at
most eight digits, the block number at most four, the directory is visible and there are data. -/
theorem stored_block_loads_iff (s : BlockStorage) (fs : FileSystem) (i : Index) (data : Bytes)
    (out : BlockFilename.Numbers) (reloadFrom : UInt32) (hshard : i.shard ≤ 63)
    {fs' : FileSystem} (hwrite : s.writeBlock fs i data = (true, fs')) :
    (BlockFilename.parse (BlockFilename.get i.recon i.shard i.block) out = (true, i.numbers) ∧
      ⟨data, i⟩ ∈ LoadFromFs.init s fs' reloadFrom) ↔
      i.recon < 100000000 ∧ i.block < 10000 ∧ s.Visible fs i ∧ data ≠ [] := by
  have hwritten := FileTools.write_eq hwrite
  have hread : s.readBlock fs' i = data := by
    rw [BlockStorage.readBlock, FileTools.read_write hwrite, Option.getD_some]
  have hfile : s.file i ∈ fs'.files ↔
      FileTools.expandTilde fs.home s.dir = s.dir ∨ s.file i ∈ fs.files := by
    rw [hwritten, ExtTreeMap.mem_insert, Std.LawfulEqCmp.compare_eq_iff_eq, BlockStorage.file_eq,
      FileTools.expandTilde_append, List.append_left_inj]
  have hdir : FileTools.isDir fs' s.dir = FileTools.isDir fs s.dir := by rw [hwritten]; rfl
  have hparse : BlockFilename.parse (BlockFilename.get i.recon i.shard i.block) out =
      (true, i.numbers) ↔ i.numbers.InRange := BlockFilename.parse_get_iff i.numbers out
  rw [hparse, mem_init_iff, hread, hfile, hdir, Index.inRange_numbers_iff hshard,
    BlockStorage.Visible]
  constructor
  · rintro ⟨⟨hrecon, hblock⟩, hvisible, _, _, hne⟩
    exact ⟨hrecon, hblock, hvisible, hne⟩
  · rintro ⟨hrecon, hblock, hvisible, hne⟩
    exact ⟨⟨hrecon, hblock⟩, hvisible, ⟨hrecon, hblock⟩, rfl, hne⟩

/-- A directory under a plain path. -/
def plainDir : FileSystem := { dirs := [['b']] }

theorem stored_block_loads_iff_plainDir :
    (BlockFilename.parse (BlockFilename.get 7 1 2) ⟨0, 0, 0⟩ = (true, ⟨7, 1, 2⟩) ∧
      (⟨[1], ⟨7, 1, 2⟩⟩ : BlockIntegrator.Submission) ∈ LoadFromFs.init ⟨['b']⟩
        ((BlockStorage.mk ['b']).writeBlock plainDir ⟨7, 1, 2⟩ [1]).2 0) ↔
      (7 : UInt32) < 100000000 ∧ (2 : UInt32) < 10000 ∧
        (BlockStorage.mk ['b']).Visible plainDir ⟨7, 1, 2⟩ ∧ ([1] : Bytes) ≠ [] :=
  stored_block_loads_iff ⟨['b']⟩ plainDir ⟨7, 1, 2⟩ [1] ⟨0, 0, 0⟩ 0 (by decide) rfl

/-- A home directory, under which the blocks are. -/
def homeDir : FileSystem := { dirs := [['h', '/', 'b']], home := ['h'] }

/-- Block 10000 of a shard is written and not loaded, and neither is any block under a directory
that is given with a `~`. -/
theorem block_10000_not_loaded :
    ((BlockStorage.mk ['b']).writeBlock plainDir ⟨1, 0, 10000⟩ [1]).1 = true ∧
      (BlockFilename.parse (BlockFilename.get 1 0 10000) ⟨0, 0, 0⟩).1 = false ∧
      LoadFromFs.init ⟨['b']⟩
        ((BlockStorage.mk ['b']).writeBlock plainDir ⟨1, 0, 10000⟩ [1]).2 0 = [] ∧
      ((BlockStorage.mk ['~', '/', 'b']).writeBlock homeDir ⟨0, 0, 0⟩ [1]).1 = true ∧
      LoadFromFs.init ⟨['~', '/', 'b']⟩
        ((BlockStorage.mk ['~', '/', 'b']).writeBlock homeDir ⟨0, 0, 0⟩ [1]).2 0 = [] :=
  ⟨rfl, by decide, rfl, rfl, rfl⟩

end Load

end Fluffycoin
