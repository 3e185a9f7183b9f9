import Fluffycoin.Curator.Tasks

/-!
# Interleaved calls of `addBlock`

What the calls of `Curator.Tasks` do to the import state together, in any order of events.

* `Consistent`: no reconciliation number has been integrated twice, `currentRecon` counts the blocks
  integrated and the row of `imported_blocks` is that of the last one.
* This does not hold of every run (`Curator.Race`). `tryNext` leaves the block it works on in the
  pending maps, and `DbIntegrator` checks a block against the cached state several `co_await`s
  before its commit.
* `Isolated` is the condition on an event: a `SELECT` of `init` finds the table empty, and when a
  block's commit is performed the cached state is still the one that it was checked against, with
  no commit outstanding in it. Runs of such events are consistent throughout
  (`consistent_of_isolated`), and the first commit that is not one integrates its number again
  (`twice_of_not_isolated`).

`Inv` says more of a run of isolated events: the blocks of the log are numbered from 0 on, and what
a waiting call has been through (`Task.Fits`). The lock has no part in it.
-/

namespace Fluffycoin

open Fluffycoin.Ossl DbIntegrator

/-- The call's rows are committed, and it has yet to bring the cached state up to date. -/
def Task.behind (task : Task) : Bool :=
  match task.point with
  | .commit _ true => isChain task.data
  | _ => false

namespace World

/-- The calls that are behind. -/
def behind (w : World) : Nat := w.tasks.countP fun x => x.any Task.behind

/-- The number of reconciliation blocks whose rows were committed. -/
def reconciliations (w : World) : Nat := w.log.countP fun e => e.2.getType == .reconciliation

/-- No number is integrated twice, `currentRecon` counts what is, and `imported_blocks` has the row
of the last block. While a call is behind the count is one short. -/
structure Consistent (o : OpenSsl) (w : World) : Prop where
  once : (w.log.map fun e => e.1.recon).Nodup
  counted : w.behind = 0 → w.log ≠ [] →
    w.integrator.currentRecon.toNat = 1 + w.reconciliations
  row : w.db.importedBlocks =
    w.log.getLast?.toList.map fun e => importedRow o e.1.recon.toNat e.2

/-- The condition on an event. -/
def Isolated (w : World) : Event → Prop
  | .serve t => ∀ task, w.tasks[t]? = some (some task) →
      (task.point = .select none → w.db.importedBlocks = []) ∧
      ∀ sent, task.point = .commit sent false → isChain task.data = true →
        task.index.recon = w.integrator.currentRecon ∧ w.behind = 0
  | _ => True

end World

/-! ## What a waiting call has been through -/

/-- The statements of a block formatted with `n` for `currentRecon`. -/
def statementsAt (o : OpenSsl) (n : UInt32) (data : Block) : List Statement :=
  statements o { currentRecon := n } data

section Drafts

variable {o : OpenSsl} {s : DbIntegrator} {n m : UInt32} {data : Block} {i : Index}
variable {task : Task} {sent : List Statement}

theorem statements_eq (o : OpenSsl) (s : DbIntegrator) (data : Block) :
    statements o s data = statementsAt o s.currentRecon data := by
  cases data <;> rfl

theorem length_statementsAt (o : OpenSsl) (n m : UInt32) (data : Block) :
    (statementsAt o n data).length = (statementsAt o m data).length := by
  cases data <;> rfl

/-- Only the last statement depends on the number. -/
theorem dropLast_statementsAt (o : OpenSsl) (n m : UInt32) (data : Block) :
    (statementsAt o n data).dropLast = (statementsAt o m data).dropLast := by
  cases data <;> rfl

/-- The kind of block goes with its number. -/
def Suits (recon : UInt32) : Block → Prop
  | .genesis _ => recon = 0
  | .reconciliation _ => recon ≠ 0
  | _ => True

/-- The call got past the checks when `currentRecon` was the block's number, and formatted what it
has sent with that number or a later one, up to `n`. -/
structure Drafted (o : OpenSsl) (n : UInt32) (i : Index) (data : Block) (sent : List Statement) :
    Prop where
  suits : Suits i.recon data
  statements : ∃ m, i.recon ≤ m ∧ m ≤ n ∧ sent <+: statementsAt o m data

/-- The same of a call that has sent all. -/
structure Written (o : OpenSsl) (n : UInt32) (i : Index) (data : Block) (sent : List Statement) :
    Prop where
  suits : Suits i.recon data
  statements : ∃ m, i.recon ≤ m ∧ m ≤ n ∧ sent = statementsAt o m data

theorem recon_of_verdict (h : s.verdict data i = none) : i.recon = s.currentRecon := by
  unfold verdict at h
  rw [guard_eq_none_iff, guard_eq_none_iff] at h
  obtain ⟨hgt, hlt, _⟩ := h
  exact UInt32.le_antisymm (UInt32.not_lt.mp hgt) (UInt32.not_lt.mp hlt)

theorem suits_of_verdict (h : s.verdict data i = none) : Suits i.recon data := by
  have hrecon := recon_of_verdict h
  cases data with
  | none => trivial
  | node x => trivial
  | genesis g => exact hrecon.trans ((verdict_eq_none_iff rfl).mp h).2.1
  | reconciliation r => exact fun h0 => ((verdict_eq_none_iff rfl).mp h).2.1 (hrecon ▸ h0)

theorem drafted_nil (h : s.verdict data i = none) : Drafted o s.currentRecon i data [] where
  suits := suits_of_verdict h
  statements :=
    ⟨s.currentRecon, recon_of_verdict h ▸ UInt32.le_refl _, UInt32.le_refl _, List.nil_prefix⟩

theorem advance_of_not_chain (hc : isChain data = false) : advance o s data = s := by
  cases data with
  | none => rfl
  | node x => rfl
  | genesis g => cases hc
  | reconciliation r => cases hc

theorem statementsAt_of_not_chain (hc : isChain data = false) : statementsAt o n data = [] := by
  cases data with
  | none => rfl
  | node x => rfl
  | genesis g => cases hc
  | reconciliation r => cases hc

theorem Drafted.mono (h : Drafted o m i data sent) (hle : m ≤ n) : Drafted o n i data sent where
  suits := h.suits
  statements := by
    obtain ⟨k, hk, hkm, hsent⟩ := h.statements
    exact ⟨k, hk, UInt32.le_trans hkm hle, hsent⟩

theorem Written.mono (h : Written o m i data sent) (hle : m ≤ n) : Written o n i data sent where
  suits := h.suits
  statements := by
    obtain ⟨k, hk, hkm, hsent⟩ := h.statements
    exact ⟨k, hk, UInt32.le_trans hkm hle, hsent⟩

/-- One more statement, formatted with the present number. -/
theorem Drafted.append (h : Drafted o n i data sent) {q : Statement}
    (hq : (statementsAt o n data)[sent.length]? = some q) : Drafted o n i data (sent ++ [q]) where
  suits := h.suits
  statements := by
    obtain ⟨m, hm, hmn, hsent⟩ := h.statements
    refine ⟨n, UInt32.le_trans hm hmn, UInt32.le_refl _, ?_⟩
    -- all that was sent before is the same under any number
    have hearlier : sent <+: (statementsAt o n data).dropLast := by
      have hlt := (List.getElem?_eq_some_iff.mp hq).1
      rw [length_statementsAt o n m] at hlt
      rw [dropLast_statementsAt o n m, List.dropLast_eq_take]
      exact List.prefix_take_iff.mpr ⟨hsent, by omega⟩
    obtain ⟨rest, hrest⟩ := hearlier.trans (List.dropLast_prefix _)
    rw [← hrest, List.getElem?_append_right (Nat.le_refl _), Nat.sub_self] at hq
    cases rest with
    | nil => cases hq
    | cons q' rest =>
      obtain rfl := Option.some.inj hq
      exact ⟨rest, by rw [List.append_assoc]; exact hrest⟩

/-- When the last statement is sent, all are. -/
theorem Drafted.written (h : Drafted o n i data sent)
    (hlen : (statementsAt o n data)[sent.length]? = none) : Written o n i data sent where
  suits := h.suits
  statements := by
    obtain ⟨m, hm, hmn, hsent⟩ := h.statements
    rw [List.getElem?_eq_none_iff, length_statementsAt o n m] at hlen
    exact ⟨m, hm, hmn, hsent.eq_of_length_le hlen⟩

/-- What is known of a waiting call while `currentRecon` is `n`. -/
def Task.Fits (o : OpenSsl) (n : UInt32) (task : Task) : Prop :=
  match task.point with
  | .newSession => True
  | .select rows => ∀ l, rows = some l → l = []
  | .query sent => Drafted o n task.index task.data sent
  | .commit sent false => Written o n task.index task.data sent
  | .commit _ true => ∀ g, task.data = .genesis g → n = 0

/-- Calls that are not behind are not concerned by a `currentRecon` that grows. -/
theorem Task.Fits.mono (h : task.Fits o m) (hle : m ≤ n) (hb : task.behind = false) :
    task.Fits o n := by
  obtain ⟨data, i, point⟩ := task
  cases point with
  | newSession => trivial
  | select rows => exact h
  | query sent => exact Drafted.mono h hle
  | commit sent performed =>
    cases performed with
    | false => exact Written.mono h hle
    | true =>
      rintro g rfl
      cases hb

end Drafts

/-! ## What has been integrated -/

/-- The blocks are numbered from 0 on, the first is a genesis block and the others are
reconciliation blocks. -/
structure Logged (log : List (Index × Block)) : Prop where
  numbers : (log.map fun e => e.1.recon.toNat) = List.range log.length
  kinds : log ≠ [] → 1 + log.countP (fun e => e.2.getType == .reconciliation) = log.length
  bound : log.length ≤ 2 ^ 31

theorem logged_nil : Logged [] where
  numbers := rfl
  kinds h := absurd rfl h
  bound := Nat.zero_le _

section Log

variable {log : List (Index × Block)} {data : Block} {i : Index}

theorem Logged.append (h : Logged log) (hc : isChain data = true) (hsuits : Suits i.recon data)
    (hlen : i.recon.toNat = log.length) (hlt : i.recon.toNat < 2 ^ 31) :
    Logged (log ++ [(i, data)]) where
  numbers := by
    rw [List.map_append, h.numbers, List.length_append, List.length_singleton, List.range_succ,
      ← hlen]
    rfl
  kinds _ := by
    have hnil : i.recon = 0 ↔ log = [] := by
      rw [← UInt32.toNat_inj, hlen]
      exact List.length_eq_zero_iff
    rw [List.countP_append, List.length_append]
    cases data with
    | none => cases hc
    | node x => cases hc
    | genesis g =>
      rw [hnil.mp hsuits]
      rfl
    | reconciliation r =>
      have hkinds := h.kinds fun hlog => hsuits (hnil.mpr hlog)
      rw [← Nat.add_assoc, hkinds]
      rfl
  bound := by
    rw [List.length_append, List.length_singleton]
    omega

theorem Logged.nodup (h : Logged log) : (log.map fun e => e.1.recon).Nodup := by
  refine List.Nodup.of_map UInt32.toNat ?_
  rw [List.map_map]
  exact h.numbers ▸ List.nodup_range

/-- A number below the length of the log is taken. -/
theorem Logged.mem_recon (h : Logged log) (hlt : i.recon.toNat < log.length) :
    i.recon ∈ log.map fun e => e.1.recon := by
  have hmem : i.recon.toNat ∈ log.map fun e => e.1.recon.toNat := by
    rw [h.numbers]
    exact List.mem_range.mpr hlt
  obtain ⟨e, he, hrecon⟩ := List.mem_map.mp hmem
  exact List.mem_map.mpr ⟨e, he, UInt32.toNat_inj.mp hrecon⟩

end Log

namespace World

section Invariant

variable {o : OpenSsl} {w w' : World} {t : Nat} {task : Task} {x y : Option Task}
variable {data : Block} {i : Index} {sent : List Statement}

theorem behind_park (hy : w.tasks[t]? = some y) (x : Option Task) :
    (w.park t x).behind + (y.any Task.behind).toNat =
      w.behind + (x.any Task.behind).toNat := by
  obtain ⟨ht, hyt⟩ := List.getElem?_eq_some_iff.mp hy
  have hpos : y.any Task.behind = true → 0 < w.behind := fun h =>
    List.countP_pos_iff.mpr ⟨y, List.mem_of_getElem? hy, h⟩
  have hpark : (w.park t x).behind = w.behind - (if y.any Task.behind = true then 1 else 0) +
      if x.any Task.behind = true then 1 else 0 := by
    unfold behind park
    rw [List.countP_set ht, hyt]
  rw [hpark]
  cases hb : y.any Task.behind with
  | false => cases x.any Task.behind <;> rfl
  | true =>
    have := hpos hb
    cases x.any Task.behind <;> simp <;> omega

/-- Nothing waits behind at `t`. -/
def Idle (w : World) (t : Nat) : Prop := ∀ y, w.tasks[t]? = some y → y.any Task.behind = false

theorem idle_park (hx : x.any Task.behind = false) : (w.park t x).Idle t := by
  intro y hy
  have ht : t < w.tasks.length := by
    simpa [park] using (List.getElem?_eq_some_iff.mp hy).1
  rw [getElem?_park ht] at hy
  rwa [← Option.some.inj hy]

/-- A call that is not behind leaves its place free. -/
theorem idle_of_task (htask : w.tasks[t]? = some (some task)) (hb : task.behind = false) :
    w.Idle t := by
  intro y hy
  obtain rfl : some task = y := Option.some.inj (htask.symm.trans hy)
  exact hb

theorem Idle.behind_park (h : w.Idle t) (hx : x.any Task.behind = false) :
    (w.park t x).behind = w.behind := by
  cases ht : w.tasks[t]? with
  | none =>
    unfold behind park
    rw [List.set_eq_of_length_le (List.getElem?_eq_none_iff.mp ht)]
  | some y =>
    have hcount := World.behind_park ht x
    rw [h y ht, hx] at hcount
    exact hcount

/-- What holds along a run of isolated events. -/
structure Inv (o : OpenSsl) (w : World) : Prop where
  log : Logged w.log
  row : w.db.importedBlocks =
    w.log.getLast?.toList.map fun e => importedRow o e.1.recon.toNat e.2
  current : w.integrator.currentRecon.toNat + w.behind = w.log.length
  behind : w.behind ≤ 1
  tasks : ∀ task, some task ∈ w.tasks → task.Fits o w.integrator.currentRecon

theorem inv_fresh (o : OpenSsl) (tables : Database) : Inv o (fresh tables) where
  log := logged_nil
  row := rfl
  current := rfl
  behind := Nat.zero_le _
  tasks task h := by cases h

namespace Inv

/-- The pending maps, the lock, `initialized` and `lastImports` do not matter. -/
theorem congr (h : Inv o w) (hlog : w'.log = w.log) (hdb : w'.db = w.db)
    (hrecon : w'.integrator.currentRecon = w.integrator.currentRecon)
    (htasks : w'.tasks = w.tasks) : Inv o w' := by
  obtain ⟨hlogged, hrow, hcurrent, hbehind, hfits⟩ := h
  unfold World.behind at hcurrent hbehind
  rw [← hlog] at hlogged hrow hcurrent
  rw [← hdb] at hrow
  rw [← hrecon] at hcurrent hfits
  rw [← htasks] at hcurrent hbehind hfits
  exact ⟨hlogged, hrow, hcurrent, hbehind, hfits⟩

theorem relock (h : Inv o w) (lock : Option Nat) : Inv o { w with lock } :=
  h.congr rfl rfl rfl rfl

theorem park (h : Inv o w) (hidle : w.Idle t)
    (hx : ∀ task, x = some task → task.behind = false ∧
      task.Fits o w.integrator.currentRecon) : Inv o (w.park t x) := by
  have hany : x.any Task.behind = false := by
    cases x with
    | none => rfl
    | some task => exact (hx task rfl).1
  have hcount := hidle.behind_park hany
  exact {
    log := h.log
    row := h.row
    current := by rw [hcount]; exact h.current
    behind := by rw [hcount]; exact h.behind
    tasks := fun task htask => by
      rcases List.mem_or_eq_of_mem_set htask with hmem | rfl
      · exact h.tasks task hmem
      · exact (hx task rfl).2 }

theorem park_none (h : Inv o w) (hidle : w.Idle t) : Inv o (w.park t none) :=
  h.park hidle fun task he => by cases he

theorem next (h : Inv o w) (hidle : w.Idle t) : Inv o (w.next t) := by
  obtain ⟨p, x, hnext, hx⟩ := next_eq w t
  have hpending : Inv o { w with pendingRecons := p } := h.congr rfl rfl rfl rfl
  rw [hnext]
  refine hpending.park hidle ?_
  rintro ⟨data, i, point⟩ rfl
  obtain rfl : point = .newSession := hx _ rfl
  exact ⟨rfl, trivial⟩

theorem finish (h : Inv o w) (hidle : w.Idle t) (task : Task) (ret : Result) :
    Inv o (w.finish t task ret) := by
  have hsettled : Inv o { w with
      pendingRecons := BlockIntegrator.settle w.pendingRecons task.index ret } :=
    h.congr rfl rfl rfl rfl
  unfold World.finish
  split
  · exact hsettled.next hidle
  · exact hsettled

theorem send (h : Inv o w) (hidle : w.Idle t)
    (hdraft : Drafted o w.integrator.currentRecon task.index task.data sent) :
    Inv o (w.send o t task sent) := by
  refine h.park hidle fun parked he => ?_
  obtain rfl := Option.some.inj he
  unfold Point.after
  rw [statements_eq]
  cases hq : (statementsAt o w.integrator.currentRecon task.data)[sent.length]? with
  | some q => exact ⟨rfl, hdraft.append hq⟩
  | none => exact ⟨rfl, hdraft.written hq⟩

theorem check (h : Inv o w) (hidle : w.Idle t) (task : Task) : Inv o (w.check o t task) := by
  unfold World.check
  split
  · exact h.finish hidle task _
  · rename_i hnone
    exact h.send hidle (drafted_nil hnone)

theorem afterQuery (h : Inv o w) (hidle : w.Idle t)
    (hdraft : Drafted o w.integrator.currentRecon task.index task.data sent) :
    Inv o (w.afterQuery o t task sent) := by
  unfold World.afterQuery
  split
  · exact (h.relock (w.lock.filter (· != t))).finish hidle task _
  · exact (h.relock _).send hidle hdraft

/-- The cached state is brought up to date. -/
theorem advance (h : Inv o w) (hc : isChain data = true)
    (htask : w.tasks[t]? = some (some { data, index := i, point := .commit sent true })) :
    Inv o ({ w with integrator := advance o w.integrator data }.park t none) := by
  have hfits := h.tasks _ (List.mem_of_getElem? htask)
  have hcurrent := h.current
  have hbound := h.log.bound
  -- it is the only call behind
  have hcount : (w.park t none).behind = 0 ∧ w.behind = 1 := by
    have hpark : (w.park t none).behind + (isChain data).toNat = w.behind + 0 :=
      behind_park htask none
    have hle := h.behind
    rw [hc, Bool.toNat_true] at hpark
    omega
  have hnext : (DbIntegrator.advance o w.integrator data).currentRecon.toNat =
      w.integrator.currentRecon.toNat + 1 := by
    cases data with
    | none => cases hc
    | node x => cases hc
    | genesis g =>
      have h0 : w.integrator.currentRecon = 0 := hfits g rfl
      rw [h0]
      rfl
    | reconciliation r =>
      have hadd : (w.integrator.currentRecon + 1).toNat =
          (w.integrator.currentRecon.toNat + 1) % 2 ^ 32 := UInt32.toNat_add _ _
      exact hadd.trans (Nat.mod_eq_of_lt (by omega))
  have hsum : (DbIntegrator.advance o w.integrator data).currentRecon.toNat +
      (w.park t none).behind = w.log.length := by omega
  exact {
    log := h.log
    row := h.row
    current := hsum
    behind := hcount.1.le.trans (Nat.zero_le _)
    tasks := fun task hmem => by
      have hnot : task.behind = false := by
        simpa using List.countP_eq_zero.mp hcount.1 (some task) hmem
      have hold : some task ∈ w.tasks := by
        rcases List.mem_or_eq_of_mem_set hmem with hmem | he
        · exact hmem
        · cases he
      refine (h.tasks task hold).mono (UInt32.le_iff_toNat_le.mpr ?_) hnot
      exact hnext ▸ Nat.le_succ _ }

theorem selected (h : Inv o w) (hidle : w.Idle t) (env : Env) (task : Task) :
    Inv o (w.selected o env t task []) := by
  have hinit : Inv o { w with integrator := { w.integrator with initialized := true } } :=
    h.congr rfl rfl rfl rfl
  exact hinit.check hidle task

theorem resume (h : Inv o w) (htask : w.tasks[t]? = some (some task)) (env : Env) :
    Inv o (w.resume o env t task) := by
  have hfits := h.tasks task (List.mem_of_getElem? htask)
  have hrunning : (w.park t none).Idle t := idle_park rfl
  have hidle : task.behind = false → w.Idle t := idle_of_task htask
  obtain ⟨data, i, point⟩ := task
  cases point with
  | newSession =>
    rw [resume_newSession]
    split
    · exact (h.park_none (hidle rfl)).check hrunning _
    · refine h.park (hidle rfl) fun parked he => ?_
      obtain rfl := Option.some.inj he
      exact ⟨rfl, fun l hl => by cases hl⟩
  | select rows =>
    cases rows with
    | none => exact h
    | some rows =>
      obtain rfl : rows = [] := hfits rows rfl
      exact (h.park_none (hidle rfl)).selected hrunning env _
  | query sent =>
    unfold World.resume
    simp only
    split
    · exact h
    · exact (h.park_none (hidle rfl)).afterQuery hrunning hfits
  | commit sent performed =>
    cases performed with
    | false => exact h
    | true =>
      rw [resume_commit]
      cases hc : isChain data with
      | true => exact (h.advance hc htask).finish (idle_park rfl) _ _
      | false =>
        rw [advance_of_not_chain hc]
        exact (h.park_none (hidle hc)).finish hrunning _ _

/-- The row a chain block leaves, given that a genesis block finds the table empty. -/
theorem importedBlocks_of_exec {db db' : Database} (hc : isChain data = true)
    (hsuits : Suits i.recon data) (hempty : i.recon = 0 → db.importedBlocks = [])
    (h : execAll (statementsAt o i.recon data) db = some db') :
    i.recon.toNat < 2 ^ 31 ∧ db'.importedBlocks = [importedRow o i.recon.toNat data] := by
  cases data with
  | none => cases hc
  | node x => cases hc
  | genesis g =>
    obtain ⟨_, rfl⟩ := execAll_genesis_iff.mp h
    have h0 : i.recon = 0 := hsuits
    have hrows : (genesisRows o g db).importedBlocks = [importedRow o 0 (.genesis g)] := by
      rw [genesisRows, hempty h0, List.nil_append]
    rw [hrows, h0]
    exact ⟨by decide, rfl⟩
  | reconciliation r =>
    obtain ⟨hlt, rfl⟩ := execAll_recon_iff.mp h
    exact ⟨hlt, rfl⟩

/-- The commit of a chain block is performed. -/
theorem commit (h : Inv o w) (hc : isChain data = true)
    (htask : w.tasks[t]? = some (some { data, index := i, point := .commit sent false }))
    (hrecon : i.recon = w.integrator.currentRecon) (hzero : w.behind = 0) {db : Database}
    (hexec : execAll sent w.db = some db) (lock : Option Nat) :
    Inv o ({ w with db, lock, log := w.log ++ [(i, data)] }.park t
      (some { data, index := i, point := .commit sent true })) := by
  have hwritten : Written o _ i data sent := h.tasks _ (List.mem_of_getElem? htask)
  obtain ⟨hsuits, m, hm, hmn, rfl⟩ := hwritten
  obtain rfl : i.recon = m := UInt32.le_antisymm hm (hrecon ▸ hmn)
  have hlen : i.recon.toNat = w.log.length := by
    rw [hrecon, ← h.current, hzero]
    rfl
  have hempty : i.recon = 0 → w.db.importedBlocks = [] := fun h0 => by
    rw [h0] at hlen
    rw [h.row, List.length_eq_zero_iff.mp hlen.symm]
    rfl
  obtain ⟨hlt, hrows⟩ := importedBlocks_of_exec hc hsuits hempty hexec
  have hlogged := h.log.append hc hsuits hlen hlt
  have hrow : db.importedBlocks = (w.log ++ [(i, data)]).getLast?.toList.map fun e =>
      importedRow o e.1.recon.toNat e.2 := by
    rw [hrows, List.getLast?_concat]
    rfl
  have hcount : ∀ l,
      (w.park t (some { data, index := i, point := .commit l true })).behind = 1 := by
    intro l
    have hpark : _ + 0 = w.behind + (isChain data).toNat := behind_park htask
      (some { data, index := i, point := .commit l true })
    rw [hc, hzero] at hpark
    exact hpark
  have hsum : ∀ l, w.integrator.currentRecon.toNat +
      (w.park t (some { data, index := i, point := .commit l true })).behind =
        (w.log ++ [(i, data)]).length := by
    intro l
    rw [hcount, ← hrecon, hlen, List.length_append]
    rfl
  exact {
    log := hlogged
    row := hrow
    current := hsum _
    behind := (hcount _).le
    tasks := fun task hmem => by
      rcases List.mem_or_eq_of_mem_set hmem with hmem | he
      · exact h.tasks task hmem
      · obtain rfl := Option.some.inj he
        rintro g rfl
        exact hrecon ▸ hsuits }

/-- The commit of another block, which has nothing to write, is performed. -/
theorem commit_of_not_chain (h : Inv o w) (hc : isChain data = false)
    (htask : w.tasks[t]? = some (some { data, index := i, point := .commit sent false }))
    {db : Database} (hexec : execAll sent w.db = some db) (lock : Option Nat) :
    Inv o ({ w with db, lock }.park t (some { data, index := i, point := .commit sent true })) := by
  have hwritten : Written o _ i data sent := h.tasks _ (List.mem_of_getElem? htask)
  obtain ⟨m, _, _, hsent⟩ := hwritten.statements
  rw [hsent, statementsAt_of_not_chain hc] at hexec
  obtain rfl : w.db = db := Option.some.inj hexec
  refine (h.relock lock).park (idle_of_task htask rfl) fun parked he => ?_
  obtain rfl := Option.some.inj he
  refine ⟨hc, ?_⟩
  rintro g rfl
  cases hc

theorem serve (h : Inv o w) (htask : w.tasks[t]? = some (some task))
    (hi : w.Isolated (.serve t)) : Inv o (w.serve t task) := by
  obtain ⟨hselect, hcommit⟩ := hi task htask
  obtain ⟨data, i, point⟩ := task
  cases point with
  | newSession => exact h
  | query sent => exact h
  | select rows =>
    cases rows with
    | some rows => exact h
    | none =>
      refine h.park (idle_of_task htask rfl) fun parked he => ?_
      obtain rfl := Option.some.inj he
      refine ⟨rfl, fun l hl => ?_⟩
      rw [← Option.some.inj hl]
      exact hselect rfl
  | commit sent performed =>
    cases performed with
    | true => exact h
    | false =>
      cases hexec : execAll sent w.db with
      | none =>
        unfold World.serve
        simp only [hexec]
        exact h
      | some db =>
        rw [serve_commit hexec]
        cases hc : isChain data with
        | true =>
          obtain ⟨hrecon, hzero⟩ := hcommit sent rfl hc
          exact h.commit hc htask hrecon hzero hexec _
        | false =>
          exact h.commit_of_not_chain hc htask hexec _

/-- A call that has filed its block. -/
theorem submitted (h : Inv o w) (pendingRecons : PendingRecons) (shardCursor : UInt32) :
    Inv o { w with pendingRecons, shardCursor, tasks := w.tasks ++ [none] } := by
  have hcount : World.behind { w with pendingRecons, shardCursor, tasks := w.tasks ++ [none] } =
      w.behind := List.countP_append
  exact {
    log := h.log
    row := h.row
    current := by rw [hcount]; exact h.current
    behind := by rw [hcount]; exact h.behind
    tasks := fun task hmem => by
      rcases List.mem_append.mp hmem with hmem | hmem
      · exact h.tasks task hmem
      · cases List.mem_singleton.mp hmem }

theorem call (h : Inv o w) (c : BlockIntegrator.Submission) : Inv o (w.call o c) := by
  unfold World.call
  cases decodeBlock o c.binData with
  | none => exact h
  | some data =>
    refine (h.submitted _ _).next fun y hy => ?_
    rw [List.getElem?_concat_length] at hy
    rw [← Option.some.inj hy]
    rfl

theorem step (h : Inv o w) (e : Event) (hi : w.Isolated e) : Inv o (w.step o e) := by
  cases e with
  | call c => exact h.call c
  | serve t =>
    rcases step_serve_cases o w t with he | ⟨task, htask, he⟩
    · rwa [he]
    · rw [he]
      exact h.serve htask hi
  | resume t env =>
    rcases step_resume_cases o w t env with he | ⟨task, htask, he⟩
    · rwa [he]
    · rw [he]
      exact h.resume htask env

theorem consistent (h : Inv o w) : w.Consistent o where
  once := h.log.nodup
  counted hzero hne := by
    have hcurrent := h.current
    rw [hzero, ← h.log.kinds hne] at hcurrent
    exact hcurrent
  row := h.row

end Inv

end Invariant

/-! ## Runs -/

/-- Every event of a run is isolated. -/
abbrev IsolatedRun (o : OpenSsl) (w : World) (events : List Event) : Prop :=
  Trace.Along (step o) id Isolated w events

/-- The row of `imported_blocks` carries the hash of the last block, byte for byte. -/
def CarriesHash (o : OpenSsl) (w : World) : Prop :=
  ∀ e, w.log.getLast? = some e → ∀ row ∈ w.db.importedBlocks,
    row.hash = (Block.importHash o e.2).encode o

/-- The hash of the last block has no byte that `Binary.encode` escapes. -/
def PlainHash (o : OpenSsl) (w : World) : Prop :=
  ∀ e, w.log.getLast? = some e → ∀ c ∈ (Block.importHash o e.2).encode o,
    Binary.isBinary c = false

theorem Consistent.carriesHash_iff {o : OpenSsl} {w : World} (h : w.Consistent o) :
    w.CarriesHash o ↔ w.PlainHash o := by
  refine forall_congr' fun e => imp_congr_right fun he => ?_
  rw [← Binary.stored_eq_iff, h.row, he]
  simp [importedRow]

theorem inv_of_isolated {o : OpenSsl} {tables : Database} {events l : List Event}
    (h : IsolatedRun o (fresh tables) events) (hl : l <+: events) :
    Inv o ((fresh tables).run o l) :=
  Trace.invariant_along (Inv o) (fun _ e hinv hi => hinv.step e hi) (inv_fresh o tables) h hl

/-- The first commit that is not isolated integrates its number again. -/
theorem twice_of_not_isolated {o : OpenSsl} {tables : Database} {events : List Event} {t : Nat}
    (h : IsolatedRun o (fresh tables) events)
    (hnot : ¬ ((fresh tables).run o events).Isolated (.serve t))
    (hlog : ((fresh tables).run o (events ++ [Event.serve t])).log ≠
      ((fresh tables).run o events).log) :
    ¬ (((fresh tables).run o (events ++ [Event.serve t])).log.map fun e => e.1.recon).Nodup := by
  have hinv := inv_of_isolated h (List.prefix_refl _)
  rw [run_append] at hlog ⊢
  generalize (fresh tables).run o events = w at hinv hnot hlog
  rw [run_cons] at hlog ⊢
  rcases step_serve_cases o w t with he | ⟨task, htask, he⟩
  · exact absurd (congrArg log he) hlog
  rw [he] at hlog ⊢
  rcases log_serve w t task with hsame | ⟨sent, hpoint, hc, hadd⟩
  · exact absurd hsame hlog
  -- the number was checked against an earlier `currentRecon`, or one that is behind
  have hlt : task.index.recon.toNat < w.log.length := by
    have hfits := hinv.tasks task (List.mem_of_getElem? htask)
    unfold Task.Fits at hfits
    rw [hpoint] at hfits
    obtain ⟨m, hm, hmn, _⟩ := hfits.statements
    have hle := UInt32.le_iff_toNat_le.mp (UInt32.le_trans hm hmn)
    have hcurrent := hinv.current
    by_contra hge
    refine hnot fun task' htask' => ?_
    obtain rfl : task = task' := Option.some.inj (Option.some.inj (htask.symm.trans htask'))
    refine ⟨fun hselect => ?_, fun _ _ _ => ⟨UInt32.toNat_inj.mp (by omega), by omega⟩⟩
    rw [hpoint] at hselect
    cases hselect
  have hmem := hinv.log.mem_recon hlt
  show ¬ ((w.serve t task).log.map _).Nodup
  rw [hadd, List.map_append, List.nodup_append]
  exact fun hnodup => hnodup.2.2 _ hmem _ (List.mem_singleton.mpr rfl) rfl

/-! ## Calls one after the other -/

section Calls

variable {o : OpenSsl} {w : World} {t u : Nat} {data : Block} {i : Index}

theorem isolatedRun_replicate (w : World) (n t : Nat) :
    IsolatedRun o w (List.replicate n (.resume t)) :=
  Trace.along_of_forall fun e he s => by
    rw [List.eq_of_mem_replicate he]
    trivial

/-- A call that is not interrupted, and meets no other that is behind, is isolated. -/
theorem isolatedRun_alone (htask : w.tasks[t]? = some (some { data, index := i }))
    (hlock : w.lock = none) (hready : w.integrator.Ready w.db) (hzero : w.behind = 0)
    (hacc : w.integrator.Accepts data i.recon i.shard i.block) {db : Database}
    (hexec : execAll (statements o w.integrator data) w.db = some db) :
    IsolatedRun o w
      (alone w.integrator.initialized (statements o w.integrator data).length t) := by
  have ht : t < w.tasks.length := (List.getElem?_eq_some_iff.mp htask).1
  have hopening : IsolatedRun o w
      (if w.integrator.initialized then [.resume t] else [.resume t, .serve t, .resume t]) := by
    cases hi : w.integrator.initialized with
    | true => exact ⟨trivial, trivial⟩
    | false =>
      have hdb := hready.importedBlocks_eq_nil hi
      refine ⟨trivial, ?_, trivial, trivial⟩
      rw [step_resume htask, resume_newSession, hi, if_neg Bool.false_ne_true]
      intro task htask
      obtain rfl := Option.some.inj (Option.some.inj ((getElem?_park ht _).symm.trans htask))
      exact ⟨fun _ => hdb, fun sent hsent => by cases hsent⟩
  refine Trace.along_append.mpr ⟨Trace.along_append.mpr
    ⟨hopening, isolatedRun_replicate _ _ _⟩, ?_, trivial, trivial⟩
  rw [show Trace.final _ _ _ _ = _ from run_approach htask hlock hready hacc hexec]
  intro task hcommit
  obtain rfl := Option.some.inj (Option.some.inj ((getElem?_park ht _).symm.trans hcommit))
  refine ⟨fun hselect => ?_, fun _ _ _ => ⟨hacc.1, ?_⟩⟩
  · cases hselect
  · exact ((idle_of_task htask rfl).behind_park rfl).trans hzero

/-- A call that finds the block it files, or an earlier one, at the head. -/
theorem call_of_head {c : BlockIntegrator.Submission} {d d' : Block} {j : Index}
    (hd : decodeBlock o c.binData = some d) (hq : w.blocks.Sound)
    (hhead : PendingRecons.head (w.blocks.file c.index d).pendingRecons = some (j, d')) :
    w.call o c = { w with
      pendingRecons := w.pendingRecons.place c.index d
      tasks := w.tasks ++ [some { data := d', index := j }] } := by
  have hsound : (w.blocks.file c.index d).Sound := hq.file (Block.copyAssign_decodeBlock hd)
  have hcursor : w.shardCursor = 0 := hq.shardCursor
  unfold call
  rw [hd]
  simp only [hcursor, gt_iff_lt, UInt32.not_lt_zero, if_false]
  rw [next_of_head (hcursor ▸ hsound) hhead]
  simp [park]

end Calls

section Genesis

variable {o : OpenSsl} {g : Genesis} {c : BlockIntegrator.Submission}

/-- The world after a call that has integrated a genesis block on empty tables. -/
def integrated (o : OpenSsl) (g : Genesis) : World where
  integrator := afterGenesis o g
  db := genesisRows o g {}
  tasks := [none]
  log := [(chainIndex 0, .genesis g)]

/-- A first call with a genesis block, before its session. -/
def opening (g : Genesis) : World where
  db := {}
  pendingRecons := PendingRecons.place ∅ (chainIndex 0) (.genesis g)
  tasks := [some { data := .genesis g, index := chainIndex 0 }]

theorem call_opening (hd : decodeBlock o c.binData = some (.genesis g))
    (hi : c.index = chainIndex 0) : (fresh {}).call o c = opening g := by
  have hsound : (fresh {}).blocks.Sound := BlockIntegrator.sound_mk _
  have hhead := BlockIntegrator.head_file_first hsound (i := c.index) (.genesis g)
    (PendingRecons.lookup_empty _) fun j d' hj => by cases hj
  rw [call_of_head hd hsound hhead, hi]
  rfl

theorem takesTo_integrated (hg : GenesisFits g {}) (o : OpenSsl) :
    System.TakesTo o (System.fresh {}) (.genesis g) (chainIndex 0)
      ⟨afterGenesis o g, genesisRows o g {}⟩ where
  accepts := (takes_genesis hg o).1
  writes := ⟨fun _ _ => rfl, execAll_genesis_iff.mpr ⟨hg, rfl⟩⟩
  integrator := rfl

/-- A call whose block was the only one pending returns. -/
theorem finish_last {w : World} {t : Nat} {data : Block} {i : Index} (hcursor : w.shardCursor = 0)
    (hpending : w.pendingRecons = PendingRecons.place ∅ i data) :
    w.finish t { data, index := i } .success = { w with pendingRecons := ∅ }.park t none := by
  have hsettle : BlockIntegrator.settle w.pendingRecons i .success = ∅ := by
    rw [hpending]
    exact (if_pos rfl).trans
      (PendingRecons.removeBlock_place PendingRecons.clean_empty (PendingRecons.lookup_empty i))
  have hsound : World.blocks { w with pendingRecons := ∅ } = { dbIntegrator := none } := by
    unfold blocks
    rw [hcursor]
  unfold finish
  simp only [hsettle]
  exact next_of_none (hsound ▸ BlockIntegrator.sound_mk _)
    ((PendingRecons.head_eq_none_iff PendingRecons.clean_empty).mpr PendingRecons.lookup_empty)

theorem run_opening_alone (hg : GenesisFits g {}) :
    (opening g).run o (alone false 4 0) = integrated o g :=
  (run_alone (w := opening g) (t := 0) rfl rfl (.inr rfl) (takesTo_integrated hg o)).trans
    (finish_last rfl rfl)

theorem isolatedRun_opening (hg : GenesisFits g {}) :
    IsolatedRun o (opening g) (alone false 4 0) :=
  isolatedRun_alone (w := opening g) (t := 0) rfl rfl (.inr rfl) rfl (takes_genesis hg o).1
    (execAll_genesis_iff.mpr ⟨hg, rfl⟩)

end Genesis

/-- **No double integration.** Along a run of isolated events no number is integrated twice,
`currentRecon` counts the blocks and the row is that of the last one. Its hash is the one of the
block when no byte of it is escaped. -/
theorem consistent_of_isolated {o : OpenSsl} {tables : Database} {events l : List Event}
    (h : IsolatedRun o (fresh tables) events) (hl : l <+: events) :
    ((fresh tables).run o l).Consistent o ∧
      (((fresh tables).run o l).CarriesHash o ↔ ((fresh tables).run o l).PlainHash o) := by
  have hconsistent := (inv_of_isolated h hl).consistent
  exact ⟨hconsistent, hconsistent.carriesHash_iff⟩

/-- The file of the genesis block, at its index. -/
def firstFile : BlockIntegrator.Submission := ⟨twoFiles 0, chainIndex 0⟩

theorem consistent_of_isolated_firstFile :
    IsolatedRun shortDer (fresh {}) (.call firstFile :: alone false 4 0) ∧
      ((fresh {}).run shortDer (.call firstFile :: alone false 4 0)).Consistent shortDer := by
  have hisolated : IsolatedRun shortDer (fresh {}) (.call firstFile :: alone false 4 0) := by
    refine ⟨trivial, ?_⟩
    rw [show (fresh {}).step shortDer (.call firstFile) = opening oneCoin from
      call_opening (c := firstFile) (decodeBlock_twoFiles 0 _ rfl) rfl]
    exact isolatedRun_opening genesisFits_oneCoin
  exact ⟨hisolated, (consistent_of_isolated hisolated (List.prefix_refl _)).1⟩

end World

end Fluffycoin
