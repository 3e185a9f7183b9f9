import Fluffycoin.Db.Tables
import Fluffycoin.Utils.Details

/-!
# Sessions

A session of `src/db/{Database,Session}.cpp`: one transaction, whose statements work on what the
transaction sees and reach the committed tables with `commit`.

* `Link` says what can go wrong in one session beside a rejected statement, and with which text:
  opening it, its `SELECT`, its `n`-th statement, its commit. A failed commit leaves the committed
  tables as they were. Every pattern of failures is some `Link`.
* Each failure goes to the `Details` as the source formats it.

`queries` is the pattern every writer in `DbIntegrator.cpp` follows: send a statement, and stop with
an extended error if the details are not ok. `Runs` says when none of a list of statements fails,
and the lemmas about it are all that later proofs use of a session.
-/

namespace Fluffycoin

/-- How one session fares: `some` text where it fails. `rejected` is the text the server gives for
a statement it rejects. -/
structure Link where
  newSession : Option String := none
  select : Option String := none
  query : Nat → Option String := fun _ => none
  rejected : String := ""
  commit : Option String := none

/-- Nothing fails in the session. -/
structure Link.Ok (l : Link) : Prop where
  newSession : l.newSession = none
  select : l.select = none
  query : ∀ n, l.query n = none
  commit : l.commit = none

theorem Link.ok_default : Link.Ok {} := ⟨rfl, rfl, fun _ => rfl, rfl⟩

/-- A session on its transaction: the statements sent so far and what the transaction sees. -/
structure Session where
  link : Link
  sent : Nat := 0
  work : Database

namespace Session

/-- `Database::newSession` (`Database.cpp:72-103`). -/
def newSession (link : Link) (db : Database) (details : Details) : Session × Details :=
  ({ link, work := db },
    match link.newSession with
    | none => details
    | some e => details.setError .connectError "new_session"
        s!"Failed to start database transaction: {e}.")

/-- `Session::select`, its effect on the details. -/
def select (s : Session) (details : Details) : Details :=
  match s.link.select with
  | none => details
  | some e => details.setError .databaseError "query" s!"Failed to query database: {e}."

/-- What the server answers to a statement: an error, or what the transaction then sees. -/
def answer (s : Session) (q : Statement) : Except String Database :=
  match s.link.query s.sent with
  | some e => .error e
  | none =>
    match q.exec s.work with
    | none => .error s.link.rejected
    | some work => .ok work

/-- `Session::query` (`Session.cpp:89-150`). -/
def query (s : Session) (q : Statement) (details : Details) : Session × Details :=
  match s.answer q with
  | .error e => ({ s with sent := s.sent + 1 },
      details.setError .databaseError "query" s!"Failed to query database: {e}.")
  | .ok work => ({ s with sent := s.sent + 1, work }, details)

/-- `Session::commit` (`Session.cpp:58-87`): whether it committed. -/
def commit (s : Session) (details : Details) : Bool × Details :=
  match s.link.commit with
  | none => (true, details)
  | some e => (false, details.setError .databaseError "query"
      s!"Failed to finalize database session: {e}.")

/-- A statement with the field and text its failure is extended with. -/
structure Step where
  statement : Statement
  field : String
  msg : String

/-- Send statements while the details stay ok; the flag says whether they all went through. -/
def queries : List Step → Session → Details → Session × Details × Bool
  | [], s, details => (s, details, true)
  | q :: qs, s, details =>
    let (s, details) := s.query q.statement details
    if details.isOk then queries qs s details
    else (s, details.extendError q.field q.msg, false)

/-! ## What a session does -/

theorem isOk_newSession (link : Link) (db : Database) (details : Details) :
    (newSession link db details).2.isOk = true ↔
      link.newSession = none ∧ details.isOk = true := by
  unfold newSession
  cases link.newSession with
  | none => simp
  | some e => simp [Details.isOk_setError, String.append_eq_empty_iff, toString]

theorem newSession_of_none {link : Link} (h : link.newSession = none) (db : Database)
    (details : Details) : newSession link db details = ({ link, work := db }, details) := by
  unfold newSession
  rw [h]

theorem isOk_select (s : Session) (details : Details) :
    (s.select details).isOk = true ↔ s.link.select = none ∧ details.isOk = true := by
  unfold select
  cases s.link.select with
  | none => simp
  | some e => simp [Details.isOk_setError, String.append_eq_empty_iff, toString]

theorem select_of_none {s : Session} (h : s.link.select = none) (details : Details) :
    s.select details = details := by
  unfold select
  rw [h]

theorem commit_fst (s : Session) (details : Details) :
    (s.commit details).1 = s.link.commit.isNone := by
  unfold commit
  split <;> simp [*]

/-- None of the statements fails, and `w` is what the transaction sees after them. -/
def Runs (s : Session) (qs : List Statement) (w : Database) : Prop :=
  (∀ i < qs.length, s.link.query (s.sent + i) = none) ∧ execAll qs s.work = some w

/-- When nothing fails, statements run unless one is rejected. -/
theorem runs_iff_of_ok {l : Link} (hl : l.Ok) {db w : Database} {qs : List Statement} :
    Runs { link := l, work := db } qs w ↔ execAll qs db = some w :=
  and_iff_right fun i _ => hl.query (0 + i)

theorem query_of_ok {s : Session} {q : Statement} {w : Database}
    (hl : s.link.query s.sent = none) (hq : q.exec s.work = some w) (details : Details) :
    s.query q details = ({ s with sent := s.sent + 1, work := w }, details) := by
  simp only [query, answer, hl, hq]

theorem query_of_failed {s : Session} {q : Statement}
    (h : s.link.query s.sent ≠ none ∨ q.exec s.work = none) (details : Details) :
    (s.query q details).2.isOk = false := by
  have herror : ∃ e, s.answer q = .error e := by
    unfold answer
    cases hl : s.link.query s.sent with
    | some e => exact ⟨e, rfl⟩
    | none =>
      rcases h with h | h
      · exact absurd hl h
      · exact ⟨s.link.rejected, by simp only [h]⟩
  obtain ⟨e, he⟩ := herror
  simp [query, he, Details.isOk_setError, String.append_eq_empty_iff, toString]

/-- A statement that leaves the details ok went through. -/
theorem ok_of_query {s : Session} {q : Statement} {details : Details}
    (h : (s.query q details).2.isOk = true) :
    details.isOk = true ∧ s.link.query s.sent = none ∧ q.exec s.work ≠ none := by
  by_cases hfail : s.link.query s.sent ≠ none ∨ q.exec s.work = none
  · rw [query_of_failed hfail] at h
    cases h
  · push Not at hfail
    obtain ⟨hl, hq⟩ := hfail
    obtain ⟨w, hw⟩ := Option.ne_none_iff_exists'.mp hq
    rw [query_of_ok hl hw] at h
    exact ⟨h, hl, hq⟩

theorem runs_cons_iff (s : Session) (q : Statement) (qs : List Statement) (w : Database) :
    s.Runs (q :: qs) w ↔ s.link.query s.sent = none ∧
      ∃ w₁, q.exec s.work = some w₁ ∧ Runs { s with sent := s.sent + 1, work := w₁ } qs w := by
  unfold Runs
  constructor
  · rintro ⟨hl, hw⟩
    obtain ⟨w₁, hq, hqs⟩ := Option.bind_eq_some_iff.mp hw
    refine ⟨hl 0 (by simp), w₁, hq, fun i hi => ?_, hqs⟩
    have := hl (i + 1) (by simp; omega)
    rwa [Nat.add_comm i 1, ← Nat.add_assoc] at this
  · rintro ⟨hl, w₁, hq, hls, hqs⟩
    refine ⟨fun i hi => ?_, Option.bind_eq_some_iff.mpr ⟨w₁, hq, hqs⟩⟩
    cases i with
    | zero => exact hl
    | succ i =>
      have := hls i (by simp at hi; omega)
      rwa [Nat.add_assoc, Nat.add_comm 1 i] at this

/-- Statements that run all go through, and leave the details alone. -/
theorem queries_of_runs {details : Details} (hd : details.isOk = true) :
    ∀ {qs : List Step} {s : Session} {w : Database}, s.Runs (qs.map Step.statement) w →
      queries qs s details = ({ s with sent := s.sent + qs.length, work := w }, details, true)
  | [], s, w, h => by
    obtain rfl : s.work = w := Option.some.inj h.2
    rfl
  | q :: qs, s, w, h => by
    obtain ⟨hl, w₁, hq, hqs⟩ := (runs_cons_iff s q.statement _ w).mp h
    rw [queries, query_of_ok hl hq]
    simp only [hd, if_true]
    rw [queries_of_runs hd hqs, List.length_cons, Nat.add_assoc, Nat.add_comm 1]

/-- Statements that do not run stop at the one that failed. -/
theorem queries_of_not_runs {details : Details} (hd : details.isOk = true) :
    ∀ {qs : List Step} {s : Session}, (¬ ∃ w, s.Runs (qs.map Step.statement) w) →
      (queries qs s details).2.2 = false
  | [], s, h => absurd ⟨s.work, fun i hi => by simp at hi, rfl⟩ h
  | q :: qs, s, h => by
    rw [queries]
    by_cases hfail : s.link.query s.sent ≠ none ∨ q.statement.exec s.work = none
    · have hnot := query_of_failed hfail details
      simp only [hnot, Bool.false_eq_true, if_false]
    · push Not at hfail
      obtain ⟨hl, hq⟩ := hfail
      obtain ⟨w₁, hq⟩ := Option.ne_none_iff_exists'.mp hq
      rw [query_of_ok hl hq]
      simp only [hd, if_true]
      refine queries_of_not_runs hd fun ⟨w, hw⟩ => h ⟨w, ?_⟩
      exact (runs_cons_iff s q.statement _ w).mpr ⟨hl, w₁, hq, hw⟩

/-- Statements that all went through ran, if there are any. -/
theorem runs_of_queries {details : Details} {qs : List Step} {s : Session} (hne : qs ≠ [])
    (h : (queries qs s details).2.2 = true) :
    details.isOk = true ∧ ∃ w, s.Runs (qs.map Step.statement) w := by
  have hd : details.isOk = true := by
    cases qs with
    | nil => exact absurd rfl hne
    | cons q qs =>
      by_contra hd
      rw [queries] at h
      by_cases hok : (s.query q.statement details).2.isOk = true
      · exact hd (ok_of_query hok).1
      · simp only [hok, Bool.false_eq_true, if_false] at h
  refine ⟨hd, ?_⟩
  by_contra hnot
  rw [queries_of_not_runs hd hnot] at h
  cases h

end Session

end Fluffycoin
