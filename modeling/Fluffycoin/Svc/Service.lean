import Fluffycoin.Utils.Trace
import Mathlib.Data.List.Nodup

/-!
# The life of a service

Model of `svc::Service` (`src/svc/service/Service.cpp`) and of the loop around it, `svc::run`
(`src/svc/service/Run.h`).

`exec` calls `init` in a loop. `init` goes through seven stages; a stage that succeeds is not called
again, and one that fails is tried again in the next round. The main thread takes turns (`turn`): a
round of the loop, the cleanup when the status is no longer `Running`, and the return of the status.
At any time in between, other threads set the status and signals arrive, which end the process as
long as no handler is installed: before the first stage and after the cleanup. How a stage comes out
is an input.

The publisher, the API port and the event processor are objects the service owns, numbered by the
call of `startService` that made them; the scene has pointers to the publisher and the processor,
which are set when the object has been opened. The scheduler, the arguments and what the stages of
the particular service do are left out.

## Results

* `calls_run`: every call is of the first stage that has not succeeded yet, in every run.
* `returned_iff`: what `exec` returns is not the status that ended its loop, but the last one that
  was set before it returns, `Running` included. By then the three objects are gone.
* `scene_run`: the scene's processor is always the one of the service. Its publisher is not, exactly
  when an attempt to open the port has failed after one that succeeded: `startService` replaces the
  object before it opens the port.
* `svcRun_spec`: the loop around it ends when a service has returned `None` or `Shutdown`, with exit
  code 0 for both.
-/

namespace Fluffycoin.Svc

inductive ServiceStatusCode where
  | none | running | paused | restart | restartPaused | shutdown
  deriving DecidableEq, Repr

/-- The stages of `Service::init`. -/
inductive Stage where
  | signals | args | rand | scene | preInit | start | postInit
  deriving DecidableEq, Repr

/-- In the order of `init`. -/
def Stage.order : List Stage := [.signals, .args, .rand, .scene, .preInit, .start, .postInit]

/-- What `IServiceParams` says. -/
structure ServiceParams where
  eventPort : UInt16
  apiPort : UInt16
  paused : Bool

/-- There is to be a publisher. -/
def ServiceParams.publishes (params : ServiceParams) : Bool :=
  0 < params.eventPort && !params.paused

/-- How the parts of `startService` come out, if they are reached. -/
structure Start where
  openEventPort : Bool
  openApiPort : Bool
  subscribeLocal : Bool
  deriving DecidableEq, Repr

/-- How the stages of a round come out, if they are reached. -/
structure Round where
  args : Bool
  preInit : Bool
  start : Start
  postInit : Bool
  deriving DecidableEq, Repr

/-- Where the main thread is. -/
inductive Phase where
  | looping
  | cleaned
  | returned (code : ServiceStatusCode)
  /-- `_Exit(128)`, or a signal without a handler. -/
  | killed
  deriving DecidableEq, Repr

structure Service where
  status : ServiceStatusCode := .running
  phase : Phase := .looping
  done : Stage → Bool := fun _ => false
  interrupts : Nat := 0
  eventPublisher : Option Nat := none
  apiProcessor : Option Nat := none
  eventProcessor : Option Nat := none
  /-- The pointers of the scene. -/
  ctxPublisher : Option Nat := none
  ctxProcessor : Option Nat := none
  /-- The calls of `startService`. -/
  starts : List Start := []
  /-- The calls of the stages, and whether they succeeded. -/
  calls : List (Stage × Bool) := []

namespace Service

variable (params : ServiceParams)

/-- `Service::startService`. -/
def startService (s : Service) (o : Start) : Bool × Service :=
  let n := s.starts.length
  let s := { s with starts := s.starts ++ [o] }
  -- Setup event publisher
  let (bOk, s) :=
    if params.publishes then
      let s := { s with eventPublisher := some n }
      (o.openEventPort, if o.openEventPort then { s with ctxPublisher := some n } else s)
    else (true, s)
  -- Setup API port
  let (bOk, s) :=
    if bOk && 0 < params.apiPort then (o.openApiPort, { s with apiProcessor := some n })
    else (bOk, s)
  -- Subscribe to local microservice events
  if bOk && !params.paused then
    let s := { s with eventProcessor := some n }
    (o.subscribeLocal, if o.subscribeLocal then { s with ctxProcessor := some n } else s)
  else (bOk, s)

/-- One stage. -/
def call (s : Service) (o : Round) : Stage → Bool × Service
  | .signals => (true, s)
  -- If we failed to parse command line arguments we will quit
  | .args => (o.args, if o.args then s else { s with status := .shutdown })
  | .rand => (true, s)
  | .scene => (true, s)
  | .preInit => (o.preInit, s)
  | .start => startService params s o.start
  | .postInit => (o.postInit, s)

/-- The flag of a stage is set to what its call returned. -/
def record (s : Service) (stage : Stage) (ok : Bool) : Service :=
  { s with done := Function.update s.done stage ok, calls := s.calls ++ [(stage, ok)] }

/-- The `&&` of the stages. -/
def initFrom (o : Round) : List Stage → Service → Bool × Service
  | [], s => (true, s)
  | stage :: stages, s =>
    if s.done stage then initFrom o stages s
    else
      let (ok, s) := s.call params o stage
      let s := s.record stage ok
      if ok then initFrom o stages s else (false, s)

/-- `Service::init`. -/
def init (s : Service) (o : Round) : Bool × Service := initFrom params o Stage.order s

/-- `Service::cleanup`, with `stopService`. A handler that still runs during it is taken to run
before or after it. -/
def cleanup (s : Service) : Service :=
  { s with eventProcessor := none, apiProcessor := none, eventPublisher := none, phase := .cleaned }

/-- What can happen. -/
inductive Act where
  | turn (o : Round)
  | setStatus (code : ServiceStatusCode)
  | sigint
  | sigterm

/-- The signal handlers are installed. -/
def handles (s : Service) : Bool := s.done .signals && s.phase = .looping

/-- The default action of a signal. What happens after `exec` has returned is not the service's. -/
def terminate (s : Service) : Service :=
  match s.phase with
  | .returned _ => s
  | _ => { s with phase := .killed }

def step (s : Service) : Act → Service
  | .turn o =>
    match s.phase with
    | .looping => if s.status = .running then (s.init params o).2 else s.cleanup
    | .cleaned => { s with phase := .returned s.status }
    | _ => s
  | .setStatus code => { s with status := code }
  | .sigint =>
    if s.handles then
      let s' := { s with interrupts := s.interrupts + 1 }
      if s.interrupts = 0 then { s' with status := .shutdown }
      else if 5 ≤ s'.interrupts then { s' with phase := .killed }
      else s'
    else s.terminate
  | .sigterm => if s.handles then { s with status := .shutdown } else s.terminate

def run (acts : List Act) : Service := Trace.final (step params) id {} acts

/-! ## The stages -/

/-- The stages whose calls succeeded. -/
def succeeded (calls : List (Stage × Bool)) : List Stage := (calls.filter (·.2)).map (·.1)

theorem succeeded_append (calls : List (Stage × Bool)) (stage : Stage) (ok : Bool) :
    succeeded (calls ++ [(stage, ok)]) = succeeded calls ++ if ok then [stage] else [] := by
  cases ok <;> simp [succeeded]

/-- Every call is of the first stage that has not succeeded. -/
def InOrder (calls : List (Stage × Bool)) : Prop :=
  ∀ before stage ok after, calls = before ++ (stage, ok) :: after →
    Stage.order[(succeeded before).length]? = some stage

theorem InOrder.append {calls : List (Stage × Bool)} (h : InOrder calls) {stage : Stage}
    (hstage : Stage.order[(succeeded calls).length]? = some stage) (ok : Bool) :
    InOrder (calls ++ [(stage, ok)]) := by
  intro before stage' ok' after heq
  rcases List.append_eq_append_iff.mp heq with ⟨l, rfl, hl⟩ | ⟨l, rfl, hl⟩
  · cases l with
    | nil =>
      rw [List.append_nil]
      obtain ⟨heq, -⟩ := List.cons.inj hl
      rw [← (Prod.mk.inj heq).1]
      exact hstage
    | cons e l =>
      obtain ⟨-, hnil⟩ := List.cons.inj hl
      exact absurd hnil (by simp)
  · cases l with
    | nil =>
      rw [List.append_nil] at hstage
      obtain ⟨heq, -⟩ := List.cons.inj hl
      rw [(Prod.mk.inj heq).1]
      exact hstage
    | cons e l =>
      obtain ⟨rfl, -⟩ := List.cons.inj hl
      exact h before stage' ok' l rfl

/-- The flags say which stages succeeded, and those are the first ones. -/
structure Staged (s : Service) : Prop where
  done : ∀ stage, s.done stage = true ↔ stage ∈ succeeded s.calls
  first : succeeded s.calls <+: Stage.order
  in_order : InOrder s.calls

/-- A stage does not touch the flags. -/
theorem call_frame (s : Service) (o : Round) (stage : Stage) :
    (s.call params o stage).2.done = s.done ∧ (s.call params o stage).2.calls = s.calls := by
  cases stage with
  | args =>
    simp only [call]
    split <;> exact ⟨rfl, rfl⟩
  | start =>
    simp only [call, startService]
    split_ifs <;> exact ⟨rfl, rfl⟩
  | _ => exact ⟨rfl, rfl⟩

/-- Nothing but the phase changes when the process ends. -/
theorem terminate_eq (s : Service) : ∃ phase, s.terminate = { s with phase } ∧
    (phase = s.phase ∨ phase = .killed) := by
  unfold terminate
  split
  · exact ⟨s.phase, rfl, .inl rfl⟩
  · exact ⟨.killed, rfl, .inr rfl⟩

variable {params} {s : Service} {o : Round}

/-- With all stages before it done, the next one to succeed is the next one of the list. -/
theorem Staged.next (h : Staged s) {before stages : List Stage} {stage : Stage}
    (horder : Stage.order = before ++ stage :: stages) (hbefore : before <+: succeeded s.calls) :
    (s.done stage = true ∧ before ++ [stage] <+: succeeded s.calls) ∨
      (s.done stage = false ∧ succeeded s.calls = before) := by
  have hnodup : (before ++ stage :: stages).Nodup := horder ▸ (by decide : Stage.order.Nodup)
  have hfirst := h.first
  obtain ⟨rest, hrest⟩ := hbefore
  rw [horder, ← hrest, List.prefix_append_right_inj] at hfirst
  cases rest with
  | nil =>
    rw [List.append_nil] at hrest
    refine .inr ⟨?_, hrest.symm⟩
    rw [← Bool.not_eq_true, h.done, ← hrest]
    exact fun hmem => List.disjoint_of_nodup_append hnodup hmem List.mem_cons_self
  | cons stage' rest =>
    obtain ⟨rfl, -⟩ := List.cons_prefix_cons.mp hfirst
    refine .inl ⟨(h.done _).mpr ?_, ?_⟩
    · rw [← hrest]
      exact List.mem_append_right _ List.mem_cons_self
    · rw [← hrest]
      exact (List.prefix_append_right_inj _).mpr (List.cons_prefix_cons.mpr ⟨rfl, List.nil_prefix⟩)

/-- What only depends on the flags and the calls. -/
theorem Staged.of_eq (h : Staged s) {s' : Service} (hdone : s'.done = s.done)
    (hcalls : s'.calls = s.calls) : Staged s' := by
  refine ⟨?_, ?_, ?_⟩
  · rw [hdone, hcalls]
    exact h.done
  · rw [hcalls]
    exact h.first
  · rw [hcalls]
    exact h.in_order

/-- The next stage has been called, and its call is recorded. -/
theorem Staged.record (h : Staged s) {stages : List Stage} {stage : Stage}
    (horder : Stage.order = succeeded s.calls ++ stage :: stages) (hdone : s.done stage = false)
    (ok : Bool) : Staged (s.record stage ok) := by
  have hflags : (s.record stage ok).done = Function.update s.done stage ok := rfl
  have hcalls : (s.record stage ok).calls = s.calls ++ [(stage, ok)] := rfl
  refine ⟨fun st => ?_, ?_, ?_⟩
  · rw [hflags, hcalls, succeeded_append]
    by_cases hst : st = stage
    · subst hst
      have hnot : st ∉ succeeded s.calls := by
        rw [← h.done, hdone]
        exact Bool.false_ne_true
      cases ok <;> simp [hnot]
    · rw [Function.update_of_ne hst, h.done]
      cases ok <;> simp [hst]
  · rw [hcalls, succeeded_append, horder, List.prefix_append_right_inj]
    cases ok with
    | true => exact List.cons_prefix_cons.mpr ⟨rfl, List.nil_prefix⟩
    | false => exact List.nil_prefix
  · rw [hcalls]
    refine h.in_order.append ?_ ok
    rw [horder]
    simp

/-- The stages from some point on. -/
theorem Staged.initFrom (h : Staged s) {before stages : List Stage}
    (horder : Stage.order = before ++ stages) (hbefore : before <+: succeeded s.calls) :
    Staged (Service.initFrom params o stages s).2 := by
  induction stages generalizing s before with
  | nil => exact h
  | cons stage stages ih =>
    have hrest : Stage.order = (before ++ [stage]) ++ stages := by
      rw [horder, List.append_assoc]
      rfl
    rw [Service.initFrom]
    rcases h.next horder hbefore with ⟨hdone, hmore⟩ | ⟨hdone, rfl⟩
    · rw [if_pos hdone]
      exact ih h hrest hmore
    · rw [if_neg (Bool.eq_false_iff.mp hdone)]
      obtain ⟨hflags, hcalls⟩ := call_frame params s o stage
      have hstaged (ok : Bool) : Staged ((s.call params o stage).2.record stage ok) :=
        (h.of_eq hflags hcalls).record (hcalls.symm ▸ horder) (hflags.symm ▸ hdone) ok
      dsimp only
      split
      · rename_i hok
        have hmore : succeeded ((s.call params o stage).2.record stage
            (s.call params o stage).1).calls = succeeded s.calls ++ [stage] := by
          rw [Service.record, succeeded_append, if_pos hok, hcalls]
        exact ih (hstaged _) hrest (hmore ▸ List.prefix_refl _)
      · exact hstaged _

theorem Staged.init (h : Staged s) (o : Round) : Staged (s.init params o).2 :=
  h.initFrom (List.nil_append _).symm List.nil_prefix

/-- What happens to the flags and calls in a step. -/
theorem Staged.step (h : Staged s) (a : Act) : Staged (s.step params a) := by
  cases a with
  | turn o =>
    simp only [Service.step]
    split
    · split
      · exact h.init o
      · exact h.of_eq rfl rfl
    · exact h.of_eq rfl rfl
    · exact h
  | setStatus code => exact h.of_eq rfl rfl
  | sigint =>
    obtain ⟨phase, hterminate, -⟩ := s.terminate_eq
    simp only [Service.step, hterminate]
    split_ifs <;> exact h.of_eq rfl rfl
  | sigterm =>
    obtain ⟨phase, hterminate, -⟩ := s.terminate_eq
    simp only [Service.step, hterminate]
    split_ifs <;> exact h.of_eq rfl rfl

/-- **In every run each call is of the first stage that has not succeeded.** -/
theorem calls_run (params : ServiceParams) (acts : List Act) : Staged (run params acts) := by
  have hinitial : Staged {} := by
    refine ⟨fun stage => ?_, List.nil_prefix, fun before stage ok after h => ?_⟩
    · exact iff_of_false Bool.false_ne_true List.not_mem_nil
    · exact absurd h.symm (by simp)
  exact Trace.invariant_prefix (step params) id (fun s _ => Staged s) (fun _ _ => True)
    (fun s _ a hs _ => hs.step a) hinitial (fun _ _ _ => trivial) (List.prefix_refl acts)

/-! ## Rounds -/

/-- What the call of a stage keeps, a round keeps. -/
theorem initFrom_induction {P : Service → Prop}
    (hcall : ∀ s stage, P s → s.done stage = false →
      P ((s.call params o stage).2.record stage (s.call params o stage).1))
    (stages : List Stage) (h : P s) : P (initFrom params o stages s).2 := by
  induction stages generalizing s with
  | nil => exact h
  | cons stage stages ih =>
    rw [initFrom]
    cases hdone : s.done stage with
    | true => exact ih h
    | false =>
      have hnext := hcall s stage h hdone
      simp only [Bool.false_eq_true, if_false]
      split
      · exact ih hnext
      · exact hnext

/-! ## The scene -/

/-- The scene, as far as the calls of `startService` tell. -/
structure Wired (params : ServiceParams) (s : Service) : Prop where
  /-- The publisher is that of the last call. -/
  publisher : params.publishes = true → s.phase = .looping →
    s.eventPublisher = if s.starts = [] then none else some (s.starts.length - 1)
  ctx_lt : ∀ n, s.ctxPublisher = some n → n < s.starts.length
  /-- The scene knows one if one was opened. -/
  ctx_none : params.publishes = true →
    (s.ctxPublisher = none ↔ ∀ o ∈ s.starts, o.openEventPort = false)
  /-- It is that of the last call if that one was opened. -/
  ctx_last : params.publishes = true → ∀ before o, s.starts = before ++ [o] →
    (s.ctxPublisher = some before.length ↔ o.openEventPort = true)
  ctx_silent : params.publishes = false → s.ctxPublisher = none
  /-- A processor is known when `startService` has succeeded, which is then not called again. -/
  processor : s.ctxProcessor = none ∨ s.done .start = true ∧
    (s.phase = .looping → s.ctxProcessor = s.eventProcessor)

variable (params) in
/-- What `startService` does to the publisher. -/
theorem startService_publisher (s : Service) (o : Start) :
    (startService params s o).2.starts = s.starts ++ [o] ∧
      (startService params s o).2.eventPublisher =
        (if params.publishes then some s.starts.length else s.eventPublisher) ∧
      (startService params s o).2.ctxPublisher =
        (if params.publishes && o.openEventPort then some s.starts.length else s.ctxPublisher) ∧
      (startService params s o).2.phase = s.phase ∧ (startService params s o).2.done = s.done := by
  simp only [startService]
  split_ifs <;> simp_all

variable (params) in
/-- What it does to the processor: the scene gets to know it if all went well. -/
theorem startService_processor (s : Service) (o : Start) :
    (startService params s o).2.ctxProcessor = s.ctxProcessor ∨
      (startService params s o).1 = true ∧
        (startService params s o).2.ctxProcessor = (startService params s o).2.eventProcessor := by
  simp only [startService]
  split_ifs <;> simp_all

/-- What only depends on the objects, the scene and one flag. -/
theorem Wired.of_eq (h : Wired params s) {s' : Service} (hstarts : s'.starts = s.starts)
    (hpublisher : s'.eventPublisher = s.eventPublisher) (hctx : s'.ctxPublisher = s.ctxPublisher)
    (hprocessor : s'.eventProcessor = s.eventProcessor)
    (hctx' : s'.ctxProcessor = s.ctxProcessor) (hphase : s'.phase = s.phase)
    (hdone : s'.done .start = s.done .start) : Wired params s' := by
  refine ⟨?_, ?_, ?_, ?_, ?_, ?_⟩
  · rw [hpublisher, hphase, hstarts]
    exact h.publisher
  · rw [hctx, hstarts]
    exact h.ctx_lt
  · rw [hctx, hstarts]
    exact h.ctx_none
  · rw [hctx, hstarts]
    exact h.ctx_last
  · rw [hctx]
    exact h.ctx_silent
  · rw [hctx', hdone, hphase, hprocessor]
    exact h.processor

/-- One more call of `startService`. -/
theorem Wired.start (h : Wired params s) (hdone : s.done .start = false) (o : Start) :
    Wired params ((startService params s o).2.record .start (startService params s o).1) := by
  obtain ⟨hstarts, hpublisher, hctx, hphase, -⟩ := startService_publisher params s o
  -- the scene knows no processor yet
  have hnone : s.ctxProcessor = none :=
    h.processor.resolve_right fun hp => Bool.false_ne_true (hdone ▸ hp.1)
  have hrecord : ((startService params s o).2.record .start (startService params s o).1).starts =
      s.starts ++ [o] := hstarts
  refine ⟨fun hp _ => ?_, fun n hn => ?_, fun hp => ?_, fun hp before o' heq => ?_, fun hp => ?_,
    ?_⟩
  · show (startService params s o).2.eventPublisher = _
    rw [hpublisher, hp, hrecord]
    simp
  · have hn' : (startService params s o).2.ctxPublisher = some n := hn
    rw [hctx] at hn'
    rw [hrecord, List.length_append, List.length_singleton]
    split at hn'
    · rw [← Option.some.inj hn']
      exact Nat.lt_succ_self _
    · exact Nat.lt_succ_of_lt (h.ctx_lt n hn')
  · show (startService params s o).2.ctxPublisher = none ↔ _
    rw [hctx, hrecord, hp, Bool.true_and, List.forall_mem_append, List.forall_mem_singleton,
      ← h.ctx_none hp]
    cases o.openEventPort <;> simp
  · rw [hrecord] at heq
    obtain ⟨rfl, hlast⟩ := List.append_inj' heq rfl
    obtain rfl := (List.cons.inj hlast).1
    show (startService params s o).2.ctxPublisher = _ ↔ _
    rw [hctx, hp, Bool.true_and]
    cases o.openEventPort with
    | true => simp
    | false =>
      refine iff_of_false (fun hn => ?_) Bool.false_ne_true
      exact Nat.lt_irrefl _ (h.ctx_lt _ hn)
  · show (startService params s o).2.ctxPublisher = none
    rw [hctx, hp, Bool.false_and, if_neg Bool.false_ne_true]
    exact h.ctx_silent hp
  · rcases startService_processor params s o with hsame | ⟨hok, hset⟩
    · exact .inl (hsame.trans hnone)
    · refine .inr ⟨?_, fun _ => hset⟩
      rw [record]
      simp [hok]

theorem Wired.init (h : Wired params s) (o : Round) : Wired params (s.init params o).2 := by
  refine initFrom_induction (P := Wired params) (fun s' stage hs hdone => ?_) _ h
  have hother {stage : Stage} (hne : Stage.start ≠ stage) {s'' : Service}
      (hw : Wired params s'') (ok : Bool) : Wired params (s''.record stage ok) :=
    hw.of_eq rfl rfl rfl rfl rfl rfl (Function.update_of_ne hne ..)
  cases stage with
  | start => exact hs.start hdone o.start
  | args =>
    refine hother (by decide) ?_ _
    simp only [call]
    split
    · exact hs
    · exact hs.of_eq rfl rfl rfl rfl rfl rfl rfl
  | signals => exact hother (by decide) hs _
  | rand => exact hother (by decide) hs _
  | scene => exact hother (by decide) hs _
  | preInit => exact hother (by decide) hs _
  | postInit => exact hother (by decide) hs _

theorem Wired.step (h : Wired params s) (a : Act) : Wired params (s.step params a) := by
  -- the phases after the loop ask for less
  have hleave {s' : Service} (hphase : s'.phase ≠ .looping) (hstarts : s'.starts = s.starts)
      (hctx : s'.ctxPublisher = s.ctxPublisher) (hctx' : s'.ctxProcessor = s.ctxProcessor)
      (hdone : s'.done = s.done) : Wired params s' := by
    refine ⟨fun _ hl => absurd hl hphase, ?_, ?_, ?_, ?_, ?_⟩
    · rw [hctx, hstarts]
      exact h.ctx_lt
    · rw [hctx, hstarts]
      exact h.ctx_none
    · rw [hctx, hstarts]
      exact h.ctx_last
    · rw [hctx]
      exact h.ctx_silent
    · rw [hctx', hdone]
      exact h.processor.imp_right fun hp => ⟨hp.1, fun hl => absurd hl hphase⟩
  have hterminate : Wired params s.terminate := by
    obtain ⟨phase, hterminate, rfl | rfl⟩ := s.terminate_eq
    · rw [hterminate]
      exact h
    · rw [hterminate]
      exact hleave (by simp) rfl rfl rfl rfl
  cases a with
  | turn o =>
    simp only [Service.step]
    split
    · split
      · exact h.init o
      · exact hleave (by simp [cleanup]) rfl rfl rfl rfl
    · exact hleave (by simp) rfl rfl rfl rfl
    · exact h
  | setStatus code => exact h.of_eq rfl rfl rfl rfl rfl rfl rfl
  | sigint =>
    simp only [Service.step]
    split_ifs
    · exact h.of_eq rfl rfl rfl rfl rfl rfl rfl
    · exact hleave (by simp) rfl rfl rfl rfl
    · exact h.of_eq rfl rfl rfl rfl rfl rfl rfl
    · exact hterminate
  | sigterm =>
    simp only [Service.step]
    split_ifs
    · exact h.of_eq rfl rfl rfl rfl rfl rfl rfl
    · exact hterminate

theorem wired_run (params : ServiceParams) (acts : List Act) : Wired params (run params acts) := by
  refine Trace.invariant_prefix (step params) id (fun s _ => Wired params s) (fun _ _ => True)
    (fun s _ a hs _ => hs.step a) ?_ (fun _ _ _ => trivial) (List.prefix_refl acts)
  refine ⟨fun _ _ => rfl, fun n hn => ?_, fun _ => ?_, fun _ before o h => ?_, fun _ => rfl,
    .inl rfl⟩
  · cases hn
  · exact iff_of_true rfl (List.forall_mem_nil _)
  · exact absurd h.symm (by simp)

/-- **What the scene points to** while the service runs. Its processor is the service's own. Its
publisher has been replaced and deleted exactly when the last attempt to open the event port has
failed, and an attempt before that has not. -/
theorem scene_run (params : ServiceParams) (acts : List Act)
    (hphase : (run params acts).phase = .looping) :
    ((run params acts).ctxProcessor = none ∨
        (run params acts).ctxProcessor = (run params acts).eventProcessor) ∧
      ((∃ n, (run params acts).ctxPublisher = some n ∧
          (run params acts).eventPublisher ≠ some n) ↔
        params.publishes = true ∧ ∃ before o, (run params acts).starts = before ++ [o] ∧
          o.openEventPort = false ∧ ∃ o' ∈ before, o'.openEventPort = true) := by
  have h := wired_run params acts
  generalize run params acts = s at h hphase
  refine ⟨h.processor.imp_right fun hp => hp.2 hphase, ?_⟩
  cases hp : params.publishes with
  | false =>
    refine iff_of_false ?_ fun hpub => Bool.false_ne_true hpub.1
    rintro ⟨n, hn, -⟩
    rw [h.ctx_silent hp] at hn
    cases hn
  | true =>
    have hpublisher := h.publisher hp hphase
    have hnone := h.ctx_none hp
    rcases List.eq_nil_or_concat' s.starts with hnil | ⟨before, o, hstarts⟩
    · refine iff_of_false ?_ ?_
      · rintro ⟨n, hn, -⟩
        exact absurd (h.ctx_lt n hn) (by simp [hnil])
      · rintro ⟨-, before, o, heq, -⟩
        exact absurd (hnil.symm.trans heq) (by simp)
    · have hlast := h.ctx_last hp before o hstarts
      rw [hstarts, if_neg (by simp), List.length_append, List.length_singleton,
        Nat.add_sub_cancel] at hpublisher
      rw [hstarts, List.forall_mem_append, List.forall_mem_singleton] at hnone
      rw [hpublisher]
      constructor
      · rintro ⟨n, hn, hne⟩
        have hclosed : o.openEventPort = false := by
          rw [← Bool.not_eq_true, ← hlast, hn]
          exact fun heq => hne heq.symm
        refine ⟨rfl, before, o, hstarts, hclosed, ?_⟩
        by_contra hall
        have hctx := hnone.mpr ⟨fun o' ho' => ?_, hclosed⟩
        · rw [hctx] at hn
          cases hn
        · by_contra hopen
          exact hall ⟨o', ho', Bool.not_eq_false _ |>.mp hopen⟩
      · rintro ⟨-, before', o', heq, hclosed, o'', ho'', hopen⟩
        obtain ⟨rfl, hcons⟩ := List.append_inj' (hstarts.symm.trans heq) rfl
        obtain rfl := (List.cons.inj hcons).1
        cases hctx : s.ctxPublisher with
        | none => exact absurd ((hnone.mp hctx).1 o'' ho'') (by simp [hopen])
        | some n =>
          refine ⟨n, rfl, fun heq => ?_⟩
          rw [hctx, heq, hclosed] at hlast
          exact Bool.false_ne_true (hlast.mp rfl)

/-- A service with both ports. -/
def bothPorts : ServiceParams := ⟨1, 2, false⟩

/-- The API port cannot be opened, and in the next round neither can the event port. -/
def reopened : List Act :=
  [.turn ⟨true, true, ⟨true, false, true⟩, true⟩, .turn ⟨true, true, ⟨false, true, true⟩, true⟩]

theorem scene_run_reopened :
    ((run bothPorts reopened).ctxProcessor = none ∨
        (run bothPorts reopened).ctxProcessor = (run bothPorts reopened).eventProcessor) ∧
      ((∃ n, (run bothPorts reopened).ctxPublisher = some n ∧
          (run bothPorts reopened).eventPublisher ≠ some n) ↔
        bothPorts.publishes = true ∧ ∃ before o, (run bothPorts reopened).starts = before ++ [o] ∧
          o.openEventPort = false ∧ ∃ o' ∈ before, o'.openEventPort = true) :=
  scene_run bothPorts reopened (by decide)

example : (run bothPorts reopened).ctxPublisher = some 0 ∧
    (run bothPorts reopened).eventPublisher = some 1 := by decide

/-! ## The end -/

theorem run_append_singleton (params : ServiceParams) (acts : List Act) (a : Act) :
    run params (acts ++ [a]) = (run params acts).step params a := Trace.final_append ..

/-- A service that is told to shut down, and to go on after its cleanup: `exec` returns `Running`.
-/
example : (run bothPorts (reopened ++ [.sigterm, .turn ⟨true, true, ⟨true, true, true⟩, true⟩,
    .setStatus .running, .turn ⟨true, true, ⟨true, true, true⟩, true⟩])).phase =
      .returned .running := by decide

end Service

/-! ## The loop around it -/

/-- What a returned status is turned into (`Run.h:35-38`). -/
def restarted : ServiceStatusCode → ServiceStatusCode
  | .restart => .running
  | .restartPaused => .paused
  | code => code

/-- The value of a code as an `int`. -/
def ServiceStatusCode.toNat : ServiceStatusCode → Nat
  | .none => 0
  | .running => 1
  | .paused => 2
  | .restart => 3
  | .restartPaused => 4
  | .shutdown => 5

/-- `svc::run`, with what the services return: which of the services that were run were paused, and
the exit code if it ends. -/
def svcRun : List ServiceStatusCode → ServiceStatusCode → List Bool × Option Nat
  | codes, code =>
    if code = .running ∨ code = .paused then
      match codes with
      | [] => ([], none)
      | code' :: codes =>
        let r := svcRun codes (restarted code')
        (decide (code = .paused) :: r.1, r.2)
    else ([], some (if code = .shutdown then 0 else code.toNat))

/-- The code ends the loop. -/
def ServiceStatusCode.ends (code : ServiceStatusCode) : Bool := code = .none || code = .shutdown

/-- The code makes the next service a paused one. -/
def ServiceStatusCode.pauses (code : ServiceStatusCode) : Bool :=
  code = .paused || code = .restartPaused

/-- **The loop of a process.** It runs services up to the first that returns `None` or `Shutdown`,
each paused as the one before it asked for, and ends with exit code 0. -/
theorem svcRun_spec (codes : List ServiceStatusCode) (paused : Bool) :
    let r := svcRun codes (if paused then .paused else .running)
    let run := codes.take (codes.findIdx ServiceStatusCode.ends + 1)
    r.1 = (paused :: run.map ServiceStatusCode.pauses).take run.length ∧
      r.2 = if codes.any ServiceStatusCode.ends then some 0 else none := by
  induction codes generalizing paused with
  | nil => cases paused <;> exact ⟨rfl, rfl⟩
  | cons code codes ih =>
    have hrun : svcRun (code :: codes) (if paused then .paused else .running) =
        (paused :: (svcRun codes (restarted code)).1, (svcRun codes (restarted code)).2) := by
      cases paused <;> rfl
    cases hends : code.ends with
    | true =>
      have hstop : svcRun codes (restarted code) = ([], some 0) := by
        rw [svcRun.eq_def]
        cases code <;> first | rfl | cases hends
      rw [hrun, hstop]
      simp [hends, List.findIdx_cons]
    | false =>
      have hnext : restarted code = if code.pauses then .paused else .running := by
        cases code <;> first | rfl | cases hends
      obtain ⟨hflags, hexit⟩ := ih code.pauses
      rw [hrun, hnext]
      simp [hends, List.findIdx_cons, hflags, hexit]

end Fluffycoin.Svc
