import Fluffycoin.Curator.Host

/-!
# `addBlock` as a coroutine

The other modules take a call of `addBlock` as one step. Here any number of calls are under way at
once, and what runs without interruption is a segment of one of them between two `co_await`s
(`BlockIntegrator.cpp:15-155`, `DbIntegrator.cpp:20-438`), in sessions in which nothing fails but
statements that the server rejects.

* `Point` is where a coroutine waits: for its session, for the rows of `init`, for a statement or
  for its commit. The `co_await`s of one function of the two classes on another are no such points:
  an `awaitable` runs into the one it awaits at once. `World` is what the coroutines share, with
  their points; the chain blocks whose rows were committed are kept in `log`, in order.
* `resume` runs one segment. What it reads of the import state it reads then: in particular the
  `INSERT` of `integrateRecon` is formatted with the `currentRecon` of the moment after the
  `TRUNCATE` returned (`DbIntegrator.cpp:353-369`).
* `serve` is the server, answering a `SELECT` or performing a `COMMIT`. The coroutine hears of it
  later, in a `resume` of its own. For a session and a statement the two are one event: nothing
  that others see depends on when within the wait the server was done.
* A transaction that has written `imported_blocks` holds the `lock` until it ends. `TRUNCATE`
  excludes every other writer, and two `INSERT`s of one key exclude each other. So transactions
  take effect as if executed at their commit. A `SELECT` is answered at any time, from the rows
  committed so far; the runs this adds, where it would have to wait for a `TRUNCATE`, are harmless.

`next` reuses the loop of `BlockIntegrator`, and `verdict` are the checks of `dispatch`, to which
`dispatch_of_verdict` and `verdict_eq_none_iff` tie it. `run_alone` is the tie to the sequential
model: a coroutine that is not interrupted does what `System.serve` does.
-/

namespace Fluffycoin

open Fluffycoin.Ossl

namespace DbIntegrator

/-- The statements of an accepted block. -/
def statements (o : OpenSsl) (s : DbIntegrator) (data : Block) : List Statement :=
  (steps o s data).map Session.Step.statement

/-- What `integrate` returns of itself between `init` and its first statement or commit; `none` if
it gets that far (`DbIntegrator.cpp:101-209, 297-348, 406-425`). -/
def verdict (s : DbIntegrator) (data : Block) (i : Index) : Option Result :=
  if i.recon > s.currentRecon then some .notReady
  else if i.recon < s.currentRecon then some .alreadyDone
  else if s.currentRecon = 0 then
    if i.shard ≠ 0 then some .invalidIndex
    else if i.block ≠ 0 then some .badBlock
    else
      match data with
      | .genesis _ => none
      | _ => some .badBlock
  else
    match data with
    | .reconciliation r =>
      match checkShards s.lastImports i.recon 0 r.shardInfo {} with
      | some (result, _) => some result
      | none =>
        if r.chainId ≠ s.currentRecon then some .badBlock
        else if r.shardInfo.length ≠ s.lastImports.size then some .badBlock
        else (matchShards s.lastImports 0 r.shardInfo {}).map Prod.fst
    | .node _ =>
      let lastBlock := ((s.lastImports[i.shard]?).map ShardInfo.block).getD 0
      if lastBlock ≥ i.block then some .alreadyDone
      else if lastBlock + 1 < i.block then some .notReady
      else none
    | _ => some .badBlock

variable {o : OpenSsl} {s : DbIntegrator} {db : Database} {data : Block} {i : Index}

/-- A check that answers, and one that returns. -/
theorem stops_of_guard {c : Prop} [Decidable c] {x ret : Result} {y : Option Result}
    {d : Details} {r : Ret} (h : (if c then some x else y) = some ret)
    (hy : y = some ret → ∃ d', r = stop ret s db d') :
    ∃ d', (if c then stop x s db d else r) = stop ret s db d' := by
  by_cases hc : c
  · rw [if_pos hc, Option.some.injEq] at h
    exact ⟨d, by rw [if_pos hc, h]⟩
  · rw [if_neg hc] at h ⊢
    exact hy h

theorem guard_eq_none_iff {c : Prop} [Decidable c] {x : Result} {y : Option Result} :
    (if c then some x else y) = none ↔ ¬ c ∧ y = none := by
  by_cases hc : c
  · simp [hc]
  · simp [hc]

theorem dispatch_of_verdict {ret : Result} (h : s.verdict data i = some ret)
    (dbsession : Session) :
    ∃ d, dispatch o s db dbsession data i.recon i.shard i.block {} = stop ret s db d := by
  unfold verdict at h
  unfold dispatch
  refine stops_of_guard h fun h => stops_of_guard h fun h => ?_
  by_cases h0 : s.currentRecon = 0
  · rw [if_pos h0] at h ⊢
    refine stops_of_guard h fun h => stops_of_guard h fun h => ?_
    cases data with
    | genesis g => cases h
    | none => exact ⟨_, by rw [← Option.some.inj h]⟩
    | reconciliation r => exact ⟨_, by rw [← Option.some.inj h]⟩
    | node n => exact ⟨_, by rw [← Option.some.inj h]⟩
  · rw [if_neg h0] at h ⊢
    cases data with
    | none => exact ⟨_, by rw [← Option.some.inj h]⟩
    | genesis g => exact ⟨_, by rw [← Option.some.inj h]⟩
    | node n => exact stops_of_guard h fun h => stops_of_guard h fun h => by cases h
    | reconciliation r =>
      simp only at h ⊢
      cases hcheck : checkShards s.lastImports i.recon 0 r.shardInfo {} with
      | some p =>
        rw [hcheck] at h
        exact ⟨p.2, by rw [← Option.some.inj h]⟩
      | none =>
        rw [hcheck] at h
        refine stops_of_guard h fun h => stops_of_guard h fun h => ?_
        obtain ⟨⟨result, d⟩, hmatch, rfl⟩ := Option.map_eq_some_iff.mp h
        exact ⟨d, by rw [hmatch]⟩

/-- For a chain block it is `Accepts` that decides. -/
theorem verdict_eq_none_iff (hc : isChain data = true) :
    s.verdict data i = none ↔ s.Accepts data i.recon i.shard i.block := by
  have hindex : i.recon = s.currentRecon ↔
      ¬ i.recon > s.currentRecon ∧ ¬ i.recon < s.currentRecon := by
    rw [gt_iff_lt, UInt32.not_lt, UInt32.not_lt, UInt32.le_antisymm_iff]
  unfold verdict Accepts
  rw [guard_eq_none_iff, guard_eq_none_iff, ← and_assoc, ← hindex]
  refine and_congr_right fun hrecon => ?_
  by_cases h0 : s.currentRecon = 0
  · rw [if_pos h0, guard_eq_none_iff, guard_eq_none_iff]
    cases data with
    | none => cases hc
    | node n => cases hc
    | genesis g => simp [h0]
    | reconciliation r => simp [h0]
  · rw [if_neg h0]
    cases data with
    | none => cases hc
    | node n => cases hc
    | genesis g => simp [h0]
    | reconciliation r =>
      have hmatch : matchShards s.lastImports 0 r.shardInfo {} = none ↔ _ :=
        matchShards_eq_none_iff {} 0 r.shardInfo
      simp only [Nat.zero_add] at hmatch
      simp only [← hmatch]
      cases hm : matchShards s.lastImports 0 r.shardInfo {} with
      | none =>
        simp only [checkShards_of_matchShards {} 0 r.shardInfo hm, guard_eq_none_iff]
        simp [h0]
      | some p =>
        -- the first loop may let it pass, the second does not
        cases checkShards s.lastImports i.recon 0 r.shardInfo {} with
        | some q => simp
        | none =>
          simp only [guard_eq_none_iff]
          simp

end DbIntegrator

open DbIntegrator

/-- The statements after which a transaction keeps other writers of `imported_blocks` out. -/
def Statement.locks : Statement → Bool
  | .insertImportedBlock .. => true
  | .truncateImportedBlocks => true
  | _ => false

/-- Where a call of `addBlock` waits.

* `newSession`: for its session (`DbIntegrator.cpp:85`);
* `select`: for `init`'s `SELECT`, and from its execution on for its rows (`DbIntegrator.cpp:25`);
* `query sent`: for the last of the statements it has sent;
* `commit sent performed`: for its `COMMIT`, and whether the server has performed it. -/
inductive Point where
  | newSession
  | select (rows : Option (List ImportedBlock))
  | query (sent : List Statement)
  | commit (sent : List Statement) (performed : Bool)

/-- What is next when the statements of a block are `l` and those `sent` have gone through. -/
def Point.after (l sent : List Statement) : Point :=
  match l[sent.length]? with
  | some q => .query (sent ++ [q])
  | none => .commit sent false

/-- A waiting call: the block it is integrating, `nextBlock` of `tryNext`, and its point. -/
structure Task where
  data : Block
  index : Index
  point : Point := .newSession

/-- To the loop of `BlockIntegrator`, an integrator that notes what it is asked for and has it kept
and the loop stop. -/
def Task.note (_ : Option Task) (data : Block) (i : Index) : Result × Option Task :=
  (.notReady, some { data, index := i })

/-- What the calls share, and the calls. A call is numbered by its position in `tasks`; while it
runs, and when it has returned, its entry is `none`. -/
structure World where
  integrator : DbIntegrator := {}
  db : Database
  pendingRecons : PendingRecons := ∅
  shardCursor : UInt32 := 0
  lock : Option Nat := none
  tasks : List (Option Task) := []
  log : List (Index × Block) := []

/-- What can happen next: a call, an answer of the server, a segment of a call. The environment is
for `init`, which may run in the segment. -/
inductive Event where
  | call (c : BlockIntegrator.Submission)
  | serve (t : Nat)
  | resume (t : Nat) (env : Env := {})

namespace World

/-- A fresh integrator on tables without imported blocks. -/
def fresh (tables : Database) : World := { db := { tables with importedBlocks := [] } }

/-- Call `t` waits where `task` says. -/
def park (w : World) (t : Nat) (task : Option Task) : World :=
  { w with tasks := w.tasks.set t task }

/-- The pending blocks, for the loop, which has picked none yet. -/
def blocks (w : World) : BlockIntegrator (Option Task) :=
  { dbIntegrator := none, pendingRecons := w.pendingRecons, shardCursor := w.shardCursor }

/-- `tryIntegrate` up to its next `co_await`, or to its end. -/
def next (w : World) (t : Nat) : World :=
  let q := w.blocks.tryIntegrate Task.note
  { w with pendingRecons := q.pendingRecons }.park t q.dbIntegrator

/-- The rest of `tryNext`, once `integrate` has returned (`BlockIntegrator.cpp:148-154`). -/
def finish (w : World) (t : Nat) (task : Task) (ret : Result) : World :=
  let w := { w with pendingRecons := BlockIntegrator.settle w.pendingRecons task.index ret }
  if isSuccess ret then w.next t else w

/-- The next statement goes out, or the commit. -/
def send (o : OpenSsl) (w : World) (t : Nat) (task : Task) (sent : List Statement) : World :=
  w.park t (some { task with point := .after (statements o w.integrator task.data) sent })

/-- `integrate` after session and `init`. -/
def check (o : OpenSsl) (w : World) (t : Nat) (task : Task) : World :=
  match w.integrator.verdict task.data task.index with
  | some ret => w.finish t task ret
  | none => w.send o t task []

/-- `init` after its `SELECT`, and on. -/
def selected (o : OpenSsl) (env : Env) (w : World) (t : Nat) (task : Task)
    (rows : List ImportedBlock) : World :=
  let dbsession : Session := { link := {}, work := { w.db with importedBlocks := rows } }
  let (status, integrator, _) := init o env w.integrator dbsession {}
  let w := { w with integrator }
  if status ≠ .success then w.finish t task status else w.check o t task

/-- The last statement sent has to wait for another transaction. -/
def waits (w : World) (t : Nat) (sent : List Statement) : Bool :=
  sent.any Statement.locks && w.lock.any (· != t)

/-- After a statement. If it was rejected the transaction is dropped. -/
def afterQuery (o : OpenSsl) (w : World) (t : Nat) (task : Task) (sent : List Statement) : World :=
  match execAll sent w.db with
  | none => { w with lock := w.lock.filter (· != t) }.finish t task .databaseError
  | some _ =>
    { w with lock := if sent.any Statement.locks then some t else w.lock }.send o t task sent

/-- A segment of call `t`. -/
def resume (o : OpenSsl) (env : Env) (w : World) (t : Nat) (task : Task) : World :=
  let running := w.park t none
  match task.point with
  | .newSession =>
    if w.integrator.initialized then running.check o t task
    else w.park t (some { task with point := .select none })
  | .select (some rows) => running.selected o env t task rows
  | .query sent => if w.waits t sent then w else running.afterQuery o t task sent
  | .commit _ true =>
    { running with integrator := advance o w.integrator task.data }.finish t task .success
  -- not answered yet
  | .select none => w
  | .commit _ false => w

/-- The server answers a `SELECT` or performs a `COMMIT`. -/
def serve (w : World) (t : Nat) (task : Task) : World :=
  match task.point with
  | .select none =>
    w.park t (some { task with point := .select (some w.db.importedBlocks) })
  | .commit sent false =>
    match execAll sent w.db with
    | none => w
    | some db =>
      { w.park t (some { task with point := .commit sent true }) with
        db
        lock := w.lock.filter (· != t)
        log := if isChain task.data then w.log ++ [(task.index, task.data)] else w.log }
  | _ => w

/-- A new call, up to its first `co_await` (`BlockIntegrator.cpp:15-53`). -/
def call (o : OpenSsl) (w : World) (c : BlockIntegrator.Submission) : World :=
  match decodeBlock o c.binData with
  | none => w
  | some data =>
    { w with
      pendingRecons := w.pendingRecons.place c.index data
      shardCursor := if w.shardCursor > c.index.shard then c.index.shard else w.shardCursor
      tasks := w.tasks ++ [none] }.next w.tasks.length

/-- One event. An event that is not due changes nothing. -/
def step (o : OpenSsl) (w : World) : Event → World
  | .call c => w.call o c
  | .serve t => (w.tasks[t]?.join).elim w fun task => w.serve t task
  | .resume t env => (w.tasks[t]?.join).elim w fun task => w.resume o env t task

/-- The world after some events. -/
abbrev run (o : OpenSsl) (w : World) (events : List Event) : World :=
  Trace.final (step o) id w events

/-! ## One event -/

section Steps

variable {o : OpenSsl} {w : World} {t : Nat} {task : Task} {data : Block} {i : Index}

theorem run_cons (w : World) (e : Event) (events : List Event) :
    w.run o (e :: events) = (w.step o e).run o events := rfl

theorem run_append (w : World) (events events' : List Event) :
    w.run o (events ++ events') = (w.run o events).run o events' :=
  Trace.final_append _ _ w events events'

theorem getElem?_park (h : t < w.tasks.length) (x : Option Task) :
    (w.park t x).tasks[t]? = some x := by
  simp [park, h]

theorem park_park (w : World) (t : Nat) (x y : Option Task) :
    (w.park t x).park t y = w.park t y := by
  simp [park]

theorem step_resume (h : w.tasks[t]? = some (some task)) (env : Env) :
    w.step o (.resume t env) = w.resume o env t task := by
  simp [step, h]

theorem step_serve (h : w.tasks[t]? = some (some task)) :
    w.step o (.serve t) = w.serve t task := by
  simp [step, h]

/-- An answer is for a call that waits. -/
theorem step_serve_cases (o : OpenSsl) (w : World) (t : Nat) : w.step o (.serve t) = w ∨
    ∃ task, w.tasks[t]? = some (some task) ∧ w.step o (.serve t) = w.serve t task := by
  cases h : w.tasks[t]? with
  | none => exact .inl (by simp [step, h])
  | some y =>
    cases y with
    | none => exact .inl (by simp [step, h])
    | some task => exact .inr ⟨task, rfl, step_serve h⟩

/-- A segment is one of a call that waits. -/
theorem step_resume_cases (o : OpenSsl) (w : World) (t : Nat) (env : Env) :
    w.step o (.resume t env) = w ∨
      ∃ task, w.tasks[t]? = some (some task) ∧
        w.step o (.resume t env) = w.resume o env t task := by
  cases h : w.tasks[t]? with
  | none => exact .inl (by simp [step, h])
  | some y =>
    cases y with
    | none => exact .inl (by simp [step, h])
    | some task => exact .inr ⟨task, rfl, step_resume h env⟩

theorem db_park (w : World) (t : Nat) (x : Option Task) : (w.park t x).db = w.db := rfl

theorem serve_select : w.serve t { data, index := i, point := .select none } =
    w.park t (some { data, index := i, point := .select (some w.db.importedBlocks) }) := rfl

theorem resume_newSession (env : Env) : w.resume o env t { data, index := i } =
    if w.integrator.initialized then (w.park t none).check o t { data, index := i }
    else w.park t (some { data, index := i, point := .select none }) := rfl

theorem resume_select (env : Env) (rows : List ImportedBlock) :
    w.resume o env t { data, index := i, point := .select (some rows) } =
      (w.park t none).selected o env t { data, index := i, point := .select (some rows) } rows :=
  rfl

theorem serve_commit {sent : List Statement} {db : Database} (h : execAll sent w.db = some db) :
    w.serve t { data, index := i, point := .commit sent false } =
      { w with
        db
        lock := w.lock.filter (· != t)
        log := if isChain data then w.log ++ [(i, data)] else w.log }.park t
        (some { data, index := i, point := .commit sent true }) := by
  unfold serve
  simp only [h, park]

/-- What the server can add to the log. -/
theorem log_serve (w : World) (t : Nat) (task : Task) : (w.serve t task).log = w.log ∨
    ∃ sent, task.point = .commit sent false ∧ isChain task.data = true ∧
      (w.serve t task).log = w.log ++ [(task.index, task.data)] := by
  unfold serve
  split
  · exact .inl rfl
  · split
    · exact .inl rfl
    · rename_i sent hpoint _ db _
      by_cases hc : isChain task.data = true
      · exact .inr ⟨sent, hpoint, hc, if_pos hc⟩
      · exact .inl (if_neg hc)
  · exact .inl rfl

theorem resume_commit (env : Env) (sent : List Statement) :
    w.resume o env t { data, index := i, point := .commit sent true } =
      ({ w with integrator := advance o w.integrator data }.park t none).finish t
        { data, index := i } .success := rfl

theorem check_of_accepts (h : w.integrator.Accepts data i.recon i.shard i.block) :
    w.check o t { data, index := i } = w.send o t { data, index := i } [] := by
  unfold check
  rw [(verdict_eq_none_iff (isChain_of_accepts h)).mpr h]

theorem next_of_head (hq : w.blocks.Sound) {i : Index} {d : Block}
    (h : PendingRecons.head w.pendingRecons = some (i, d)) :
    w.next t = w.park t (some { data := d, index := i }) := by
  have hround : w.blocks.tryNext Task.note = _ := BlockIntegrator.tryNext_of_head hq h
  unfold next
  rw [BlockIntegrator.tryIntegrate_of_stop _ (congrArg Prod.fst hround), hround]
  rfl

theorem next_of_none (hq : w.blocks.Sound) (h : PendingRecons.head w.pendingRecons = none) :
    w.next t = w.park t none := by
  have hround : w.blocks.tryNext Task.note = _ := BlockIntegrator.tryNext_of_none hq h
  unfold next
  rw [BlockIntegrator.tryIntegrate_of_stop _ (congrArg Prod.fst hround), hround]
  rfl

theorem dbIntegrator_tryNext {σ : Type} (ask : σ → Block → Index → Result × σ)
    (q : BlockIntegrator σ) : (q.tryNext ask).2.dbIntegrator = q.dbIntegrator ∨
      ∃ data i, (q.tryNext ask).2.dbIntegrator = (ask q.dbIntegrator data i).2 := by
  unfold BlockIntegrator.tryNext
  split
  · exact .inl rfl
  · split
    · exact .inl rfl
    · split
      · exact .inl rfl
      · exact .inr ⟨_, _, rfl⟩

/-- `next` parks the call with a new block to integrate, or for good. -/
theorem next_eq (w : World) (t : Nat) : ∃ p x, w.next t = { w with pendingRecons := p }.park t x ∧
    ∀ task, x = some task → task.point = .newSession := by
  have hround : ∀ q : BlockIntegrator (Option Task),
      (∀ task, q.dbIntegrator = some task → task.point = .newSession) →
      ∀ task, (q.tryNext Task.note).2.dbIntegrator = some task → task.point = .newSession := by
    intro q hq task htask
    rcases dbIntegrator_tryNext Task.note q with he | ⟨data, i, he⟩
    · exact hq task (he ▸ htask)
    · rw [he] at htask
      obtain rfl := Option.some.inj htask
      rfl
  obtain ⟨q, hq, hlast⟩ := BlockIntegrator.tryIntegrate_rule Task.note _ hround w.blocks
    fun task htask => by cases htask
  refine ⟨_, _, rfl, fun task htask => hround q hq task ?_⟩
  rw [hlast]
  exact htask

theorem finish_success (w : World) (t : Nat) (task : Task) :
    ∃ p x, (w.park t none).finish t task .success = { w with pendingRecons := p }.park t x := by
  obtain ⟨p, x, hnext, _⟩ := next_eq { w.park t none with
    pendingRecons := BlockIntegrator.settle w.pendingRecons task.index .success } t
  exact ⟨p, x, hnext.trans (park_park { w with pendingRecons := p } t none x)⟩

/-! ## A call that is not interrupted -/

/-- The point of a call that has heard of the first `n` of its statements. -/
def draft (l : List Statement) (n : Nat) : Point :=
  if n < l.length then .query (l.take (n + 1)) else .commit l false

theorem after_take {l : List Statement} {n : Nat} (h : n ≤ l.length) :
    Point.after l (l.take n) = draft l n := by
  unfold Point.after draft
  rw [List.length_take, Nat.min_eq_left h]
  by_cases hn : n < l.length
  · rw [if_pos hn, List.getElem?_eq_getElem hn, List.take_add_one, List.getElem?_eq_getElem hn]
    rfl
  · rw [if_neg hn, List.getElem?_eq_none (Nat.le_of_not_lt hn),
      List.take_of_length_le (Nat.le_of_not_lt hn)]

/-- The lock after the first `n` statements. -/
def lockAfter (t : Nat) (l : List Statement) (n : Nat) : Option Nat :=
  if (l.take n).any Statement.locks then some t else none

/-- The events of a call up to its commit, for a block with `n` statements. -/
def approach (initialized : Bool) (n t : Nat) : List Event :=
  (if initialized then [.resume t] else [.resume t, .serve t, .resume t]) ++
    List.replicate n (.resume t)

/-- The events of a call that integrates such a block. -/
def alone (initialized : Bool) (n t : Nat) : List Event :=
  approach initialized n t ++ [.serve t, .resume t]

theorem send_nil (w : World) (t : Nat) (data : Block) (i : Index) :
    w.send o t { data, index := i } [] =
      w.park t (some { data, index := i, point := draft (statements o w.integrator data) 0 }) := by
  have hafter := after_take (Nat.zero_le (statements o w.integrator data).length)
  rw [List.take_zero] at hafter
  unfold send
  rw [hafter]

theorem resume_query {sent : List Statement} {db : Database} (hwaits : w.waits t sent = false)
    (h : execAll sent w.db = some db) (env : Env) :
    w.resume o env t { data, index := i, point := .query sent } =
      { w with lock := if sent.any Statement.locks then some t else w.lock }.send o t
        { data, index := i } sent := by
  unfold resume
  simp only [hwaits, Bool.false_eq_true, if_false, afterQuery, park, h, send, List.set_set]

theorem waits_of_lock {l : List Statement} {n : Nat} (hlock : w.lock = lockAfter t l n)
    (sent : List Statement) : w.waits t sent = false := by
  unfold waits
  rw [hlock, lockAfter]
  split <;> simp

theorem lockAfter_succ {l : List Statement} {n : Nat} :
    (if (l.take (n + 1)).any Statement.locks then some t else lockAfter t l n) =
      lockAfter t l (n + 1) := by
  unfold lockAfter
  by_cases h : (l.take (n + 1)).any Statement.locks = true
  · rw [if_pos h, if_pos h]
  · have hn : ¬ (l.take n).any Statement.locks = true := fun hn => by
      obtain ⟨q, hq, hlocks⟩ := List.any_eq_true.mp hn
      exact h (List.any_eq_true.mpr ⟨q, List.take_subset_take_left l (Nat.le_succ n) hq, hlocks⟩)
    rw [if_neg h, if_neg hn, if_neg h]

/-- Call `t` hears of one more statement. -/
theorem step_draft (ht : t < w.tasks.length) {l : List Statement}
    (hl : statements o w.integrator data = l) {n : Nat} (hn : n < l.length)
    (hlock : w.lock = lockAfter t l n) {db : Database} (h : execAll l w.db = some db) :
    (w.park t (some { data, index := i, point := draft l n })).step o (.resume t) =
      { w with lock := lockAfter t l (n + 1) }.park t
        (some { data, index := i, point := draft l (n + 1) }) := by
  obtain ⟨db₁, hdb₁⟩ := execAll_take (n := n + 1) h
  have hwaits : ∀ x, (w.park t x).waits t (l.take (n + 1)) = false := fun x =>
    waits_of_lock (w := w.park t x) hlock _
  rw [step_resume (getElem?_park ht _), draft, if_pos hn, resume_query (hwaits _) hdb₁,
    ← after_take hn, ← lockAfter_succ]
  simp only [send, park, hl, hlock, List.set_set]

/-- Call `t` hears of its statements from the `n`-th on. -/
theorem run_draft (ht : t < w.tasks.length) {l : List Statement}
    (hl : statements o w.integrator data = l) {db : Database} (h : execAll l w.db = some db)
    {k n : Nat} (hk : n + k = l.length) (hlock : w.lock = lockAfter t l n) :
    (w.park t (some { data, index := i, point := draft l n })).run o
        (List.replicate k (.resume t)) =
      { w with lock := lockAfter t l l.length }.park t
        (some { data, index := i, point := .commit l false }) := by
  induction k generalizing n w with
  | zero =>
    obtain rfl : n = l.length := hk
    rw [← hlock, draft, if_neg (Nat.lt_irrefl _)]
    rfl
  | succ k ih =>
    rw [List.replicate_succ, run_cons, step_draft ht hl (by omega) hlock h]
    exact ih (w := { w with lock := lockAfter t l (n + 1) }) ht hl h (by omega) rfl

/-- `init` on an empty table. -/
theorem selected_nil (env : Env) :
    w.selected o env t { data, index := i, point := .select (some []) } [] =
      { w with integrator := { w.integrator with initialized := true } }.check o t
        { data, index := i } := rfl

/-- A call gets past its session and, if it has to, past `init`. -/
theorem run_opening (htask : w.tasks[t]? = some (some { data, index := i }))
    (hready : w.integrator.Ready w.db) :
    w.run o (if w.integrator.initialized then [.resume t] else [.resume t, .serve t, .resume t]) =
      { w.park t none with integrator := { w.integrator with initialized := true } }.check o t
        { data, index := i } := by
  have ht : t < w.tasks.length := (List.getElem?_eq_some_iff.mp htask).1
  cases hi : w.integrator.initialized with
  | true =>
    have hs : { w.integrator with initialized := true } = w.integrator := by rw [← hi]
    rw [if_pos rfl, run_cons, step_resume htask, resume_newSession, if_pos hi, hs]
    rfl
  | false =>
    have hdb := hready.importedBlocks_eq_nil hi
    rw [if_neg Bool.false_ne_true, run_cons, step_resume htask, resume_newSession, hi,
      if_neg Bool.false_ne_true, run_cons, step_serve (getElem?_park ht _), serve_select, park_park,
      db_park, hdb, run_cons, step_resume (getElem?_park ht _), resume_select, park_park]
    exact selected_nil (w := w.park t none) {}

theorem filter_lockAfter (t : Nat) (l : List Statement) (n : Nat) :
    (lockAfter t l n).filter (· != t) = none := by
  unfold lockAfter
  split <;> simp

/-- The commit of call `t` is performed. -/
theorem step_commit (ht : t < w.tasks.length) (hc : isChain data = true) {l : List Statement}
    {db : Database} (h : execAll l w.db = some db) :
    (w.park t (some { data, index := i, point := .commit l false })).step o (.serve t) =
      { w with db, lock := w.lock.filter (· != t), log := w.log ++ [(i, data)] }.park t
        (some { data, index := i, point := .commit l true }) := by
  have hperformed : (w.park t (some { data, index := i, point := .commit l false })).serve t
      { data, index := i, point := .commit l false } = _ := serve_commit h
  rw [step_serve (getElem?_park ht _), hperformed, if_pos hc]
  simp only [park, List.set_set]

/-- Call `t` hears of its commit. -/
theorem step_performed (ht : t < w.tasks.length) (l : List Statement) :
    (w.park t (some { data, index := i, point := .commit l true })).step o (.resume t) =
      ({ w with integrator := advance o w.integrator data }.park t none).finish t
        { data, index := i } .success := by
  rw [step_resume (getElem?_park ht _), resume_commit]
  simp only [park, List.set_set]

/-- The commit, and the cached state after it. -/
theorem run_commit (ht : t < w.tasks.length) (hc : isChain data = true) {l : List Statement}
    {db : Database} (h : execAll l w.db = some db) :
    (w.park t (some { data, index := i, point := .commit l false })).run o
        [.serve t, .resume t] =
      ({ w with
        integrator := advance o w.integrator data
        db
        lock := w.lock.filter (· != t)
        log := w.log ++ [(i, data)] }.park t none).finish t { data, index := i } .success := by
  rw [run_cons, step_commit ht hc h, run_cons, step_performed]
  · rfl
  · exact ht

/-- A call that is not interrupted gets as far as its commit. -/
theorem run_approach (htask : w.tasks[t]? = some (some { data, index := i }))
    (hlock : w.lock = none) (hready : w.integrator.Ready w.db)
    (hacc : w.integrator.Accepts data i.recon i.shard i.block) {db : Database}
    (hexec : execAll (statements o w.integrator data) w.db = some db) :
    w.run o (approach w.integrator.initialized (statements o w.integrator data).length t) =
      { w with
        integrator := { w.integrator with initialized := true }
        lock := lockAfter t (statements o w.integrator data)
          (statements o w.integrator data).length }.park t
        (some { data, index := i, point := .commit (statements o w.integrator data) false }) := by
  have ht : t < w.tasks.length := (List.getElem?_eq_some_iff.mp htask).1
  generalize hs : { w.integrator with initialized := true } = s
  have hsteps : statements o s data = statements o w.integrator data := by
    subst hs
    cases data <;> rfl
  have hacc' : s.Accepts data i.recon i.shard i.block := hs ▸ hacc
  generalize statements o w.integrator data = l at hexec hsteps
  have hsend : { w.park t none with integrator := s }.send o t { data, index := i } [] =
      { w with integrator := s }.park t (some { data, index := i, point := draft l 0 }) := by
    rw [send_nil, ← hsteps]
    exact park_park { w with integrator := s } t none _
  have hdraft := run_draft (w := { w with integrator := s }) (i := i) ht hsteps hexec
    (Nat.zero_add _) (by simp [lockAfter, hlock])
  rw [approach, run_append, run_opening htask hready, hs, check_of_accepts hacc', hsend, hdraft]

/-- **A call that is not interrupted** does to a block that is taken what the sequential model
does. -/
theorem run_alone (htask : w.tasks[t]? = some (some { data, index := i })) (hlock : w.lock = none)
    (hready : w.integrator.Ready w.db) {w' : System}
    (h : System.TakesTo o ⟨w.integrator, w.db⟩ data i w') :
    w.run o (alone w.integrator.initialized (statements o w.integrator data).length t) =
      ({ w with
        integrator := w'.integrator
        db := w'.db
        log := w.log ++ [(i, data)] }.park t none).finish t { data, index := i } .success := by
  have ht : t < w.tasks.length := (List.getElem?_eq_some_iff.mp htask).1
  have hexec : execAll (statements o w.integrator data) w.db = some w'.db := h.writes.2
  have hadv : advance o { w.integrator with initialized := true } data = w'.integrator := by
    rw [h.integrator]
    cases data <;> rfl
  have happroach := run_approach htask hlock hready h.accepts hexec
  generalize statements o w.integrator data = l at hexec happroach
  generalize { w.integrator with initialized := true } = s at hadv happroach
  have hcommit := run_commit (o := o) (i := i) (l := l)
    (w := { w with integrator := s, lock := lockAfter t l l.length }) ht
    (isChain_of_accepts h.accepts) hexec
  rw [filter_lockAfter, hadv] at hcommit
  rw [alone, run_append, happroach, hcommit, hlock]

end Steps

end World

end Fluffycoin
