import Simurga.Common

/-!
# The database retry loop

`Database::execute` (`db.cpp`) around `ASql::MySQL::Statement::execute`
(`mysql.cpp`) and the row container of `Database::query`
(`STLSetRefContainer`, `data.hpp`).

MySQL is a parameter: an `Attempt` says what one turn of the loop meets,
up to the reconnection. The row container is the vector the caller handed
in, shared by all attempts; a default-constructed row is `default`.
`Statement::execute` runs with `m_stop` false and without `rows` and
`insertId`, as `Database::execute` calls it.
-/

namespace Simurga

variable {Row : Type}

/-- `ASql::MySQL::Error`. -/
structure MySQLError where
  erno : Int
  msg : Bytes
deriving DecidableEq

/-- How the calls of `mysql_stmt_fetch` after the delivered rows end. -/
inductive FetchEnd where
  | noData
  | error (e : MySQLError)
deriving DecidableEq

/-- What the statement of one attempt meets. -/
inductive Outcome (Row : Type) where
  | prepareError (e : MySQLError)
  | executeError (e : MySQLError)
  | fetch (rows : List Row) (last : FetchEnd)
deriving DecidableEq

/-- One turn of the loop: the statement, and `connect` should it fail. -/
structure Attempt (Row : Type) where
  outcome : Outcome Row
  reconnect : Except MySQLError Unit

/-! ## Runs of attempts -/

def executeRetryCount : Nat := 3

def Outcome.result : Outcome Row → Except MySQLError Unit
  | .prepareError e | .executeError e | .fetch _ (.error e) => .error e
  | .fetch _ .noData => .ok ()

/-- The attempt failed and the loop goes on. -/
def Attempt.Retried (a : Attempt Row) : Prop :=
  (∃ e, a.outcome.result = .error e) ∧ a.reconnect = .ok ()

/-- The call returns with attempt `n`, which delivered `rows`. -/
structure Succeeds (attempts : Nat → Attempt Row) (n : Nat) (rows : List Row) : Prop where
  in_time : n < executeRetryCount
  delivered : (attempts n).outcome = .fetch rows .noData
  before : ∀ m < n, (attempts m).Retried

/-- The attempt failed in its fetch loop. -/
def Outcome.FailsInFetch (o : Outcome Row) : Prop := ∃ rows e, o = .fetch rows (.error e)

theorem Outcome.result_ok {o : Outcome Row} (h : o.result = .ok ()) :
    ∃ rows, o = .fetch rows .noData := by
  cases o with
  | prepareError e => cases h
  | executeError e => cases h
  | fetch rows last =>
      cases last with
      | noData => exact ⟨rows, rfl⟩
      | error e => cases h

theorem Succeeds.unique {attempts : Nat → Attempt Row} {n m : Nat} {rows rows' : List Row}
    (h : Succeeds attempts n rows) (h' : Succeeds attempts m rows') : n = m ∧ rows = rows' := by
  have hle : ∀ {a b : Nat} {ra rb : List Row}, Succeeds attempts a ra → Succeeds attempts b rb →
      ¬ a < b := by
    intro a b ra rb ha hb hlt
    obtain ⟨⟨e, he⟩, -⟩ := hb.before a hlt
    rw [ha.delivered] at he
    cases he
  obtain rfl : n = m := by
    have := hle h h'
    have := hle h' h
    omega
  have hrows := h.delivered.symm.trans h'.delivered
  cases hrows
  exact ⟨rfl, rfl⟩

/-! ## `STLSetRefContainer` -/

variable [Inhabited Row]

def manufacture (data : List Row) : List Row := data ++ [default]

/-- The bindings of the last row are written by a fetch. -/
def bindRow (data : List Row) (row : Row) : List Row := data.dropLast ++ [row]

def trimRows (data : List Row) : List Row := data.dropLast

/-! ## `Statement::execute` -/

/-- The fetch loop: a row is manufactured before each fetch. -/
def fetchLoop : List Row → FetchEnd → List Row → List Row × Except MySQLError Unit
  | row :: rows, last, data => fetchLoop rows last (bindRow (manufacture data) row)
  | [], .noData, data => (trimRows (manufacture data), .ok ())
  | [], .error e, data => (manufacture data, .error e)

/-- The constructor of the statement and its `execute`. -/
def statementExecute (outcome : Outcome Row) (data : List Row) :
    List Row × Except MySQLError Unit :=
  match outcome with
  | .prepareError e => (data, .error e)
  | .executeError e => (data, .error e)
  | .fetch rows last => fetchLoop rows last data

/-! ## `Database::execute` -/

/-- The loop with `left` turns to go. -/
def executeLoop (attempts : Nat → Attempt Row) :
    (left retry : Nat) → List Row → List Row × Except MySQLError Unit
  | 0, _, results => (results, .ok ())
  | left + 1, retry, results =>
      match statementExecute (attempts retry).outcome results with
      | (results, .ok ()) => (results, .ok ())
      | (results, .error e) =>
          if retry = executeRetryCount - 1 then (results, .error e)
          else
            match (attempts retry).reconnect with
            | .error e => (results, .error e)
            | .ok () => executeLoop attempts left (retry + 1) results

def Database.execute (attempts : Nat → Attempt Row) (results : List Row) :
    List Row × Except MySQLError Unit :=
  executeLoop attempts executeRetryCount 0 results

/-- `Database::query`; `query_np` runs the same loop without parameters. -/
def Database.query (attempts : Nat → Attempt Row) (results : List Row) :
    List Row × Except MySQLError Unit :=
  Database.execute attempts results

/-! ## What an attempt adds to the container -/

/-- The rows an attempt leaves behind the ones that were there: a failed
fetch leaves the rows before it and the one manufactured for it. -/
def Outcome.added : Outcome Row → List Row
  | .prepareError _ | .executeError _ => []
  | .fetch rows .noData => rows
  | .fetch rows (.error _) => rows ++ [default]

@[simp] theorem bindRow_manufacture (data : List Row) (row : Row) :
    bindRow (manufacture data) row = data ++ [row] := by
  simp [bindRow, manufacture]

@[simp] theorem trimRows_manufacture (data : List Row) : trimRows (manufacture data) = data := by
  simp [trimRows, manufacture]

theorem fetchLoop_eq (last : FetchEnd) (rows data : List Row) :
    fetchLoop rows last data
      = (data ++ (Outcome.fetch rows last).added, (Outcome.fetch rows last).result) := by
  induction rows generalizing data with
  | nil =>
      cases last with
      | noData => simp [fetchLoop, Outcome.added, Outcome.result]
      | error e => simp [fetchLoop, manufacture, Outcome.added, Outcome.result]
  | cons row rows ih =>
      rw [fetchLoop, bindRow_manufacture, ih]
      cases last <;> simp [Outcome.added, Outcome.result]

theorem statementExecute_eq (outcome : Outcome Row) (data : List Row) :
    statementExecute outcome data = (data ++ outcome.added, outcome.result) := by
  cases outcome with
  | prepareError e => simp [statementExecute, Outcome.added, Outcome.result]
  | executeError e => simp [statementExecute, Outcome.added, Outcome.result]
  | fetch rows last => rw [statementExecute, fetchLoop_eq]

/-! ## The loop -/

/-- A failed attempt adds nothing exactly when it failed before its fetch loop. -/
theorem Outcome.added_eq_nil_iff {o : Outcome Row} {e : MySQLError} (h : o.result = .error e) :
    o.added = [] ↔ ¬ o.FailsInFetch := by
  cases o with
  | prepareError e => simp [Outcome.added, Outcome.FailsInFetch]
  | executeError e => simp [Outcome.added, Outcome.FailsInFetch]
  | fetch rows last =>
      cases last with
      | noData => cases h
      | error e => simp [Outcome.added, Outcome.FailsInFetch]

/-- One failed turn of the loop. -/
theorem executeLoop_retried {attempts : Nat → Attempt Row} {retry : Nat}
    (h : (attempts retry).Retried) (hretry : retry + 1 < executeRetryCount) (left : Nat)
    (results : List Row) :
    executeLoop attempts (left + 1) retry results
      = executeLoop attempts left (retry + 1) (results ++ (attempts retry).outcome.added) := by
  obtain ⟨⟨e, he⟩, hconnect⟩ := h
  rw [executeLoop, statementExecute_eq, he]
  dsimp only
  rw [if_neg (by omega), hconnect]

/-- The rows added by the attempts from `retry` on, `n` of them. -/
def addedFrom (attempts : Nat → Attempt Row) (retry n : Nat) : List Row :=
  (List.range' retry n).flatMap fun m => (attempts m).outcome.added

/-- A run of failed turns and then the attempt that succeeds. -/
theorem executeLoop_succeeds {attempts : Nat → Attempt Row} {rows : List Row}
    (n left retry : Nat) (results : List Row) (hleft : retry + left = executeRetryCount)
    (h : Succeeds attempts (retry + n) rows) :
    executeLoop attempts left retry results
      = (results ++ addedFrom attempts retry n ++ rows, .ok ()) := by
  induction n generalizing left retry results with
  | zero =>
      have hin := h.in_time
      obtain ⟨k, rfl⟩ : ∃ k, left = k + 1 := ⟨left - 1, by omega⟩
      have hout : (attempts retry).outcome = .fetch rows .noData := h.delivered
      rw [executeLoop, hout, statementExecute_eq]
      simp [Outcome.added, Outcome.result, addedFrom]
  | succ n ih =>
      have hin := h.in_time
      obtain ⟨k, rfl⟩ : ∃ k, left = k + 1 := ⟨left - 1, by omega⟩
      have hnext : Succeeds attempts (retry + 1 + n) rows := by
        rwa [show retry + 1 + n = retry + (n + 1) by omega]
      rw [executeLoop_retried (h.before retry (by omega)) (by omega),
        ih _ _ _ (by omega) hnext]
      simp [addedFrom, List.range'_succ]

/-- A loop that returns has met an attempt that succeeds. -/
theorem executeLoop_ok {attempts : Nat → Attempt Row} {left retry : Nat}
    {results results' : List Row} (hpos : 0 < left) (hleft : retry + left = executeRetryCount)
    (hbefore : ∀ m < retry, (attempts m).Retried)
    (h : executeLoop attempts left retry results = (results', .ok ())) :
    ∃ n rows, Succeeds attempts n rows := by
  induction left generalizing retry results with
  | zero => exact absurd hpos (Nat.lt_irrefl 0)
  | succ left ih =>
      rw [executeLoop, statementExecute_eq] at h
      cases hres : (attempts retry).outcome.result with
      | ok u =>
          obtain ⟨rows, hrows⟩ := Outcome.result_ok hres
          exact ⟨retry, rows, by omega, hrows, hbefore⟩
      | error e =>
          rw [hres] at h
          dsimp only at h
          split at h
          · cases h
          · rename_i hlast
            cases hconnect : (attempts retry).reconnect with
            | error e => rw [hconnect] at h; cases h
            | ok u =>
                rw [hconnect] at h
                refine ih (by omega) (by omega) (fun m hm => ?_) h
                rcases Nat.lt_succ_iff_lt_or_eq.mp hm with hm | rfl
                · exact hbefore m hm
                · exact ⟨⟨e, hres⟩, hconnect⟩

/-- A query that returns holds exactly the rows of the attempt that
succeeded if and only if no attempt before that one failed in its fetch
loop. -/
theorem query_exact_iff (attempts : Nat → Attempt Row) :
    (∀ results, Database.query attempts [] = (results, .ok ()) →
        ∃ n, Succeeds attempts n results)
      ↔ ∀ n rows, Succeeds attempts n rows → ∀ m < n, ¬ (attempts m).outcome.FailsInFetch := by
  have hreturn : ∀ {n : Nat} {rows : List Row}, Succeeds attempts n rows →
      Database.query attempts [] = (addedFrom attempts 0 n ++ rows, .ok ()) := by
    intro n rows h
    have hrun := executeLoop_succeeds n executeRetryCount 0 [] rfl
      (by rwa [Nat.zero_add])
    simpa [Database.query, Database.execute] using hrun
  have hempty : ∀ {n : Nat} {rows : List Row}, Succeeds attempts n rows →
      (addedFrom attempts 0 n = [] ↔ ∀ m < n, ¬ (attempts m).outcome.FailsInFetch) := by
    intro n rows h
    rw [addedFrom, List.flatMap_eq_nil_iff]
    refine forall_congr' fun m => ?_
    rw [List.mem_range'_1, Nat.zero_add]
    refine ⟨fun hm hlt => ?_, fun hm hlt => ?_⟩
    · obtain ⟨⟨e, he⟩, -⟩ := h.before m hlt
      exact (Outcome.added_eq_nil_iff he).mp (hm ⟨Nat.zero_le m, hlt⟩)
    · obtain ⟨⟨e, he⟩, -⟩ := h.before m hlt.2
      exact (Outcome.added_eq_nil_iff he).mpr (hm hlt.2)
  constructor
  · intro hexact n rows h
    obtain ⟨n', h'⟩ := hexact _ (hreturn h)
    obtain ⟨-, hrows⟩ := h'.unique h
    exact (hempty h).mp (by simpa using hrows)
  · intro hclean results hquery
    obtain ⟨n, rows, h⟩ := executeLoop_ok (by decide) rfl (by simp) hquery
    rw [hreturn h, (hempty h).mpr (hclean n rows h), List.nil_append] at hquery
    cases hquery
    exact ⟨n, h⟩

/-- The connection is lost after one row and the second attempt delivers
both: the caller gets the first row twice and a blank one between. -/
theorem query_lost_in_fetch :
    Database.query (fun n => if n = 0 then ⟨.fetch [7] (.error ⟨2013, []⟩), .ok ()⟩
        else ⟨.fetch [7, 8] .noData, .ok ()⟩) []
      = ([7, 0, 7, 8], .ok ())
    ∧ [7, 0, 7, 8] ≠ [7, 8] := by
  decide

end Simurga
