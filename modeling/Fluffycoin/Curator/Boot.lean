import Fluffycoin.Curator.BlockStorage
import Fluffycoin.Curator.LoadOrder

/-!
# Starting from a directory of blocks

`BlockStorage` as a store over time (`src/services/curator/fs/BlockStorage.cpp`): blocks of a chain
are written, written again and cleared, in any order, and then the curator starts and loads what is
there (`src/services/curator/events/LoadFromFs.cpp`). The directory is given without a `~` and may
hold any other files. `std::filesystem` lists it in an order of its own.

* `Holds.step`, `holds_run`: the directory holds the blocks whose last act was a write.
* **`boot_after`**: at the start, whatever the order of the listing, the blocks before the first one
  missing are integrated, in order and once each, and those behind it are pending.

`clearBlock` does not expand a `~` (`FileTools.cpp:184-188`) where `writeBlock` does, so under
such a directory nothing would be cleared; that is another reason for the condition than the one in
`stored_block_loads_iff`.
-/

namespace Fluffycoin

open Std (ExtTreeMap)
open Fluffycoin.Ossl Fluffycoin.Alg

/-- `FileTools::unlink`, of a regular file. -/
def FileTools.unlink (fs : FileSystem) (path : List Char) : Bool × FileSystem :=
  (fs.files.contains path, { fs with files := fs.files.erase path })

/-- `BlockStorage::clearBlock`. -/
def BlockStorage.clearBlock (s : BlockStorage) (fs : FileSystem) (i : Index) : FileSystem :=
  (FileTools.unlink fs (s.file i)).2

namespace BlockStorage

/-- What is done with a block of the chain. -/
inductive Act where
  | write (n : Nat)
  | clear (n : Nat)
  deriving DecidableEq, Repr

def Act.number : Act → Nat
  | .write n => n
  | .clear n => n

variable (s : BlockStorage) (files : Nat → Bytes)

def step (fs : FileSystem) : Act → FileSystem
  | .write n => (s.writeBlock fs (chainIndex n) (files n)).2
  | .clear n => s.clearBlock fs (chainIndex n)

/-- The file system after some acts. -/
def run (fs : FileSystem) (acts : List Act) : FileSystem := Trace.final (s.step files) id fs acts

/-- The last act on block `n` was a write. -/
def stored (acts : List Act) (n : Nat) : Bool :=
  (acts.filter (·.number = n)).getLast? = some (.write n)

theorem mem_of_stored {acts : List Act} {n : Nat} (h : stored acts n = true) :
    .write n ∈ acts :=
  List.mem_of_mem_filter (List.mem_of_getLast? (of_decide_eq_true h))

theorem stored_append_self (acts : List Act) (a : Act) :
    stored (acts ++ [a]) a.number = decide (a = .write a.number) := by
  simp [stored]

theorem stored_append_of_ne (acts : List Act) {a : Act} {n : Nat} (h : a.number ≠ n) :
    stored (acts ++ [a]) n = stored acts n := by
  simp [stored, h]

/-- The directory is there under its own name, and no block's file name is that of a directory. -/
structure Ready (fs : FileSystem) : Prop where
  plain : FileTools.expandTilde fs.home s.dir = s.dir
  isDir : FileTools.isDir fs s.dir = true
  files : ∀ i, FileTools.isDir fs (s.file i) = false

/-- The directory holds the blocks that are stored, and no other ones. -/
structure Holds (acts : List Act) (fs : FileSystem) : Prop where
  ready : s.Ready fs
  small : ∀ n, stored acts n = true → n < 10 ^ 8
  blocks : ∀ i : Index, i.numbers.InRange → ∀ data, fs.files[s.file i]? = some data ↔
    ∃ n, stored acts n = true ∧ i = chainIndex n ∧ data = files n

variable {s files} {fs : FileSystem} {acts : List Act} {i j : Index}

theorem file_inj (hi : i.numbers.InRange) (hj : j.numbers.InRange) (h : s.file i = s.file j) :
    i = j := by
  have hget : i.numbers.get = j.numbers.get := (List.cons.inj (List.append_cancel_left h)).2
  have hparse := BlockFilename.parse_get hi ⟨0, 0, 0⟩
  rw [hget, BlockFilename.parse_get hj] at hparse
  have hnumbers : j.numbers = i.numbers := congrArg Prod.snd hparse
  obtain ⟨recon, shard, block⟩ := i
  cases hnumbers
  rfl

theorem inRange_chainIndex {n : Nat} (h : n < 10 ^ 8) : (chainIndex n).numbers.InRange := by
  have hzero : (0 : UInt32).toNat < 10 ^ 4 := by decide
  refine ⟨?_, hzero, hzero⟩
  show (UInt32.ofNat n).toNat < 10 ^ 8
  rwa [UInt32.toNat_ofNat_of_lt' (h.trans (by decide))]

theorem parent_file (s : BlockStorage) (i : Index) : FileTools.parent (s.file i) = s.dir := by
  have hname : ∀ c ∈ i.numbers.get.reverse, decide (c ≠ '/') = true := fun c hc =>
    decide_eq_true fun hslash => slash_not_mem_get i.numbers (hslash ▸ List.mem_reverse.mp hc)
  rw [FileTools.parent, file_eq, List.reverse_append, List.reverse_cons, List.append_assoc,
    List.dropWhile_append_of_pos hname]
  simp

theorem Ready.expandTilde_file (h : s.Ready fs) (i : Index) :
    FileTools.expandTilde fs.home (s.file i) = s.file i := by
  rw [file_eq, FileTools.expandTilde_append, h.plain]

theorem Ready.writeBlock (h : s.Ready fs) (i : Index) (data : Bytes) :
    s.writeBlock fs i data = (true, { fs with files := fs.files.insert (s.file i) data }) := by
  rw [BlockStorage.writeBlock, FileTools.write]
  simp only [h.expandTilde_file, parent_file, h.isDir, h.files i]
  simp

theorem Ready.readBlock (h : s.Ready fs) (i : Index) :
    s.readBlock fs i = (fs.files[s.file i]?).getD [] := by
  rw [BlockStorage.readBlock, FileTools.read, h.expandTilde_file]

/-! ## What the directory holds -/

theorem Ready.step (h : s.Ready fs) (a : Act) : s.Ready (s.step files fs a) := by
  cases a with
  | write n =>
    rw [BlockStorage.step, h.writeBlock]
    exact ⟨h.plain, h.isDir, h.files⟩
  | clear n => exact ⟨h.plain, h.isDir, h.files⟩

/-- The file of a block after an act. -/
theorem Ready.getElem?_step (h : s.Ready fs) {a : Act} (ha : a.number < 10 ^ 8)
    (hi : i.numbers.InRange) :
    (s.step files fs a).files[s.file i]? =
      if i = chainIndex a.number then
        if a = .write a.number then some (files a.number) else none
      else fs.files[s.file i]? := by
  have hfile : s.file (chainIndex a.number) = s.file i ↔ i = chainIndex a.number :=
    ⟨fun heq => file_inj hi (inRange_chainIndex ha) heq.symm, fun heq => heq ▸ rfl⟩
  cases a with
  | write n =>
    rw [BlockStorage.step, h.writeBlock]
    simp only [ExtTreeMap.getElem?_insert, Std.LawfulEqCmp.compare_eq_iff_eq, Act.number] at hfile ⊢
    simp only [hfile, if_true]
  | clear n =>
    rw [BlockStorage.step, clearBlock, FileTools.unlink]
    simp only [ExtTreeMap.getElem?_erase, Std.LawfulEqCmp.compare_eq_iff_eq, Act.number] at hfile ⊢
    simp only [hfile, reduceCtorEq, if_false]

/-- **One act.** -/
theorem Holds.step (h : s.Holds files acts fs) {a : Act} (ha : a.number < 10 ^ 8) :
    s.Holds files (acts ++ [a]) (s.step files fs a) := by
  have hsmall : ∀ n, stored (acts ++ [a]) n = true → n < 10 ^ 8 := by
    intro n hn
    by_cases han : a.number = n
    · exact han ▸ ha
    · exact h.small n (stored_append_of_ne acts han ▸ hn)
  refine ⟨h.ready.step a, hsmall, fun i hi data => ?_⟩
  rw [h.ready.getElem?_step ha hi]
  by_cases hown : i = chainIndex a.number
  · -- the numbers are small, so no other block has this index
    have hnumber {n : Nat} (hn : stored (acts ++ [a]) n = true) (hin : i = chainIndex n) :
        n = a.number := by
      have hlt := hsmall n hn
      exact chainIndex_inj (by omega) (by omega) (hin.symm.trans hown)
    rw [if_pos hown]
    by_cases hwrite : a = .write a.number
    · rw [if_pos hwrite]
      constructor
      · intro hdata
        refine ⟨a.number, ?_, hown, (Option.some.inj hdata).symm⟩
        rw [stored_append_self]
        exact decide_eq_true hwrite
      · rintro ⟨n, hn, hin, rfl⟩
        rw [hnumber hn hin]
    · rw [if_neg hwrite]
      refine iff_of_false nofun fun ⟨n, hn, hin, _⟩ => hwrite ?_
      rw [hnumber hn hin, stored_append_self] at hn
      exact of_decide_eq_true hn
  · rw [if_neg hown, h.blocks i hi]
    refine exists_congr fun n => ?_
    by_cases han : a.number = n
    · exact iff_of_false (fun hn => hown (han ▸ hn.2.1)) fun hn => hown (han ▸ hn.2.1)
    · rw [stored_append_of_ne acts han]

/-- **After any acts** the directory holds the blocks whose last act was a write. -/
theorem holds_run (hready : s.Ready fs) (hfresh : ∀ i, s.file i ∉ fs.files)
    (hacts : ∀ a ∈ acts, a.number < 10 ^ 8) : s.Holds files acts (s.run files fs acts) := by
  have hnone : s.Holds files [] fs := by
    refine ⟨hready, nofun, fun i _ data => iff_of_false ?_ nofun⟩
    rw [ExtTreeMap.getElem?_eq_none (hfresh i)]
    exact nofun
  refine Trace.invariant_prefix (s.step files) id (fun fs acts => s.Holds files acts fs)
    (fun _ a => a.number < 10 ^ 8) (fun _ _ _ h ha => h.step ha) hnone (fun l a hla => ?_)
    (List.prefix_refl acts)
  exact hacts a (hla.subset (List.mem_append_right l List.mem_cons_self))

end BlockStorage

/-! ## The start -/

open BlockStorage (stored)

variable {s : BlockStorage} {fs : FileSystem} {files : Nat → Bytes} {acts : List BlockStorage.Act}

theorem nodup_listFiles {dir : List Char} {l : List (List Char)}
    (h : FileTools.listFiles fs dir = some l) : l.Nodup := by
  unfold FileTools.listFiles at h
  split at h
  · cases h
    refine List.Nodup.filterMap (fun path path' name hpath hpath' => ?_) ExtTreeMap.nodup_keys
    have hslash : '/' ∉ name := by
      unfold FileTools.nameIn at hpath
      split at hpath
      · rename_i hname
        obtain ⟨-, hcontains⟩ := Bool.and_eq_true_iff.mp hname
        rw [← Option.some.inj hpath]
        simpa using hcontains
      · cases hpath
    rw [(FileTools.nameIn_eq_some_iff hslash).mp hpath,
      (FileTools.nameIn_eq_some_iff hslash).mp hpath']
  · cases h

/-- No block is loaded twice. -/
theorem nodup_filterMap_loadFile {listing : List (List Char)} (h : listing.Nodup) :
    (listing.filterMap (LoadFromFs.loadFile s fs 0)).Nodup := by
  refine List.Nodup.filterMap (fun file file' c hfile hfile' => ?_) h
  obtain ⟨data, i⟩ := c
  rw [(loadFile_eq_some_iff.mp hfile).1, (loadFile_eq_some_iff.mp hfile').1]

/-- What is loaded are the blocks the directory holds. -/
theorem BlockStorage.Holds.mem_init_iff (h : s.Holds files acts fs)
    (hne : ∀ n, stored acts n = true → files n ≠ []) {data : Bytes} {i : Index}
    {reloadFrom : UInt32} :
    (⟨data, i⟩ : BlockIntegrator.Submission) ∈ LoadFromFs.init s fs reloadFrom ↔
      ∃ n, stored acts n = true ∧ i = chainIndex n ∧ data = files n := by
  rw [Fluffycoin.mem_init_iff, h.ready.readBlock]
  constructor
  · rintro ⟨⟨-, hmem⟩, hrange, hdata, -⟩
    refine (h.blocks i hrange data).mp ?_
    rw [ExtTreeMap.getElem?_eq_some_getElem hmem, Option.getD_some] at hdata
    rw [ExtTreeMap.getElem?_eq_some_getElem hmem, hdata]
  · rintro ⟨n, hn, rfl, rfl⟩
    have hrange := inRange_chainIndex (h.small n hn)
    have hfile := (h.blocks _ hrange _).mpr ⟨n, hn, rfl, rfl⟩
    rw [hfile]
    exact ⟨⟨h.ready.isDir, ExtTreeMap.isSome_getElem?_iff_mem.mp (hfile ▸ rfl)⟩, hrange, rfl,
      hne n hn⟩

/-- **Loading what the directory holds** makes the calls with the files of the blocks, each once, in
some order. -/
theorem BlockStorage.Holds.exists_order (h : s.Holds files acts fs)
    (hne : ∀ n, stored acts n = true → files n ≠ []) {listed listing : List (List Char)}
    (hlisted : s.getFiles fs = some listed) (hperm : listing.Perm listed) :
    ∃ order, order.Nodup ∧ (∀ n, n ∈ order ↔ stored acts n = true) ∧
      listing.filterMap (LoadFromFs.loadFile s fs 0) = loadCalls files order := by
  have hinit : LoadFromFs.init s fs 0 = listed.filterMap (LoadFromFs.loadFile s fs 0) := by
    rw [LoadFromFs.init, hlisted]
  have hcalls {c : BlockIntegrator.Submission} :
      c ∈ listing.filterMap (LoadFromFs.loadFile s fs 0) ↔
        ∃ n, stored acts n = true ∧ c.index = chainIndex n ∧ c.binData = files n := by
    rw [(hperm.filterMap _).mem_iff, ← hinit]
    exact h.mem_init_iff hne
  have hnodup : (listing.filterMap (LoadFromFs.loadFile s fs 0)).Nodup :=
    nodup_filterMap_loadFile (hperm.nodup_iff.mpr (nodup_listFiles hlisted))
  generalize listing.filterMap (LoadFromFs.loadFile s fs 0) = calls at hcalls hnodup
  have htoNat {n : Nat} (hn : stored acts n = true) : (chainIndex n).recon.toNat = n :=
    toNat_chainIndex ((h.small n hn).trans (by decide))
  have hload : calls = loadCalls files (calls.map (·.index.recon.toNat)) := by
    rw [loadCalls, List.map_map]
    refine (List.map_id calls).symm.trans (List.map_congr_left fun c hc => ?_)
    obtain ⟨n, hn, hindex, hdata⟩ := hcalls.mp hc
    obtain ⟨data, i⟩ := c
    obtain rfl : i = chainIndex n := hindex
    obtain rfl : data = files n := hdata
    simp only [Function.comp, id, htoNat hn]
  refine ⟨calls.map (·.index.recon.toNat), ?_, fun n => ?_, hload⟩
  · rw [hload] at hnodup
    exact List.Nodup.of_map _ hnodup
  · rw [List.mem_map]
    constructor
    · rintro ⟨c, hc, rfl⟩
      obtain ⟨n, hn, hindex, -⟩ := hcalls.mp hc
      rwa [hindex, htoNat hn]
    · intro hn
      exact ⟨⟨files n, chainIndex n⟩, hcalls.mpr ⟨n, hn, rfl, rfl⟩, htoNat hn⟩

/-- **Starting from a directory.** Let blocks of a chain of at most `10^8` be written to an empty
block directory that is given without a `~`, and cleared again, in any order and any number of
times, and let the curator then load the directory, listed in any order, with nothing failing. If
`k` is the first block that is not stored, the first `k` blocks have been integrated, in order and
once each, and the stored ones behind the gap are pending. -/
theorem boot_after (o : OpenSsl) (tables : Database) (chain : List Block)
    (hl : Loads o tables chain) (hlen : chain.length ≤ 10 ^ 8) (envs : Nat → Env)
    (hok : ∀ n, (envs n).toLink.Ok) (files : Nat → Bytes)
    (hfiles : ∀ (n : Nat) b, chain[n]? = some b → decodeBlock o (files n) = some b)
    (hne : ∀ n < chain.length, files n ≠ []) (s : BlockStorage) (fs : FileSystem)
    (hready : s.Ready fs) (hfresh : ∀ i, s.file i ∉ fs.files) (acts : List BlockStorage.Act)
    (hacts : ∀ a ∈ acts, a.number < chain.length) (listed listing : List (List Char))
    (hlisted : s.getFiles (s.run files fs acts) = some listed) (hperm : listing.Perm listed)
    (k : Nat) (hk : stored acts k = false) (hbelow : ∀ n < k, stored acts n = true) :
    ∃ order, (∀ n, n ∈ order ↔ stored acts n = true) ∧
      Loaded o tables chain order k (BlockIntegrator.run o envs tables
        (listing.filterMap (LoadFromFs.loadFile s (s.run files fs acts) 0))) := by
  have hholds : s.Holds files acts (s.run files fs acts) :=
    BlockStorage.holds_run hready hfresh fun a ha => (hacts a ha).trans_le hlen
  have hstored : ∀ n, stored acts n = true → n < chain.length := fun n hn =>
    hacts _ (BlockStorage.mem_of_stored hn)
  obtain ⟨order, hnodup, hmem, hcalls⟩ :=
    hholds.exists_order (fun n hn => hne n (hstored n hn)) hlisted hperm
  refine ⟨order, hmem, ?_⟩
  rw [hcalls]
  exact loaded_run hl hok hfiles hnodup (fun n hn => hstored n ((hmem n).mp hn))
    (fun hmemk => Bool.false_ne_true (hk.symm.trans ((hmem k).mp hmemk)))
    fun n hn => (hmem n).mpr (hbelow n hn)

/-- A directory with a file that is not a block. -/
def strayDir : FileSystem := { plainDir with files := ExtTreeMap.empty.insert "b/notes".toList [1] }

theorem ready_strayDir : (BlockStorage.mk ['b']).Ready strayDir where
  plain := rfl
  isDir := rfl
  files i := by simp [FileTools.isDir, strayDir, plainDir, BlockStorage.file]

theorem file_notMem_strayDir (i : Index) : (BlockStorage.mk ['b']).file i ∉ strayDir.files := by
  intro hmem
  have hfile : "b/notes".toList = (BlockStorage.mk ['b']).file i := by
    simpa [strayDir, ExtTreeMap.mem_insert] using hmem
  have hdash : '-' ∈ (BlockStorage.mk ['b']).file i := by
    simp [BlockStorage.file, BlockFilename.get]
  rw [← hfile] at hdash
  revert hdash
  decide

theorem twoFiles_ne_nil (n : Nat) (h : n < (twoBlocks shortDer).length) : twoFiles n ≠ [] := by
  intro hnil
  have hdecode := decodeBlock_twoFiles n _ (List.getElem?_eq_getElem h)
  rw [hnil] at hdecode
  cases hdecode

theorem boot_after_strayDir :
    ∃ order, (∀ n, n ∈ order ↔ stored [.write 1, .write 0, .clear 1] n = true) ∧
      Loaded shortDer {} (twoBlocks shortDer) order 1 (BlockIntegrator.run shortDer (fun _ => {}) {}
        (LoadFromFs.init ⟨['b']⟩
          ((BlockStorage.mk ['b']).run twoFiles strayDir [.write 1, .write 0, .clear 1]) 0)) :=
  boot_after shortDer {} (twoBlocks shortDer) (loads_twoBlocks shortDer) (by decide) (fun _ => {})
    (fun _ => Link.ok_default) twoFiles decodeBlock_twoFiles twoFiles_ne_nil ⟨['b']⟩ strayDir
    ready_strayDir file_notMem_strayDir [.write 1, .write 0, .clear 1] (by decide) _ _ rfl
    (List.Perm.refl _) 1 (by decide) (by decide)

end Fluffycoin
