import Mathlib.Algebra.Order.Group.Multiset
import SnapSearch.Lib.Serial
import SnapSearch.Snapshots

/-!
# Requests one after the other

A search reads the tables, and the audit trail appends to the log, adds to the counter
and writes to the error log; nothing that a request writes is read by another.  So as
long as the tables stay as they are, any interleaving of requests could have been one
request after the other.

## Main definitions

* `lossOf` — what an answer adds to the counter and to the error log.
* `Committed` — the answer of a commit.

## Main results

* `endsAfter_search` — a request makes no call once it has committed.
* `additive_searchSystem` — calls read the tables only, and add to the rest.
* `exists_serial_of_passes` — **requests next to each other are as good as requests one
  after the other**, in the order in which they end.
-/

namespace SnapSearch

/-! ### A commit is the last call -/

/-- The answer of a commit. -/
def Committed (o : Op) (r : Except Exn (Res o)) : Prop :=
  match o with
  | .commit _ => r.isOk = true
  | _ => False

theorem not_committed_of_reads {session : Conn} {o : Op} (h : o.Reads session)
    (r : Except Exn (Res o)) : ¬Committed o r := by
  cases o with
  | commit c => exact h.elim
  | _ => exact id

theorem endsAfter_writeFailed (session : Conn) : (writeFailed session).EndsAfter Committed := by
  apply Prog.endsAfter_of_calls
  have hlog : ∀ message, (logException message).Calls fun o => ∀ r, ¬Committed o r :=
    fun message => calls_logException fun _ => id
  apply Prog.calls_bind (hlog _)
  intro _
  apply Prog.calls_bind
  · exact Prog.calls_handle (Prog.calls_perform fun _ => id) fun _ => hlog _
  · intro _
    exact Prog.calls_handle (Prog.calls_perform fun _ => id) fun _ => hlog _

/-- The writer makes no call once it has committed. -/
theorem endsAfter_write (session : Conn) (rows : List SearchAuditLog) :
    (write session rows).EndsAfter Committed := by
  intro r
  refine ⟨False.elim, ?_⟩
  cases r with
  | error e => exact endsAfter_writeFailed session
  | ok a =>
    intro r
    cases r with
    | error e => exact ⟨Bool.noConfusion, endsAfter_writeFailed session⟩
    | ok a => exact ⟨fun _ => ⟨.ok (), rfl⟩, trivial⟩

variable {decode : String → Except JwtError Payload} {intOf : Json → Except ErrorType ℤ}

/-- **A request makes no call once it has committed.** -/
theorem endsAfter_search (r : HttpRequest) : (search decode intOf r).EndsAfter Committed := by
  rcases search_cases decode intOf r with
    ⟨e, hraise⟩ | ⟨body, context, request, -, -, -, hsearch⟩
  · rw [hraise]
    trivial
  · rw [hsearch, runSearch]
    split
    · exact Prog.endsAfter_bind (endsAfter_write _ _) fun _ => ⟨.error searchDenied, rfl⟩
    · apply Prog.endsAfter_bind_of_calls
        ((calls_searchLoop _ _ _ _ _ _).mono fun o ho r => not_committed_of_reads ho r)
      intro found
      exact Prog.endsAfter_bind (endsAfter_write _ _) fun _ => ⟨.ok _, rfl⟩

/-! ### What calls add -/

/-- What an answer adds to the counter and to the error log. -/
def lossOf (o : Op) (r : Except Exn (Res o)) : ℕ × Multiset String :=
  match o with
  | .counterAdd amount => (if r.isOk then amount else 0, 0)
  | .logException message => (0, {message})
  | _ => 0

/-- The counter and the error log, in no order. -/
def Shared.noted (s : Shared) : ℕ × Multiset String := (s.auditWriteFailures, s.errorLog)

/-- The step that an operation makes, whatever else the shared state holds. -/
theorem perform_adds (fault : Option Exn) (s : Shared) (l : Sessions) (o : Op) :
    ∃ entries, (¬Committed o (perform fault (s, l) o).1 → entries = []) ∧
      ∀ x : Shared, x.database = s.database →
        (perform fault (x, l) o).1 = (perform fault (s, l) o).1 ∧
        (perform fault (x, l) o).2.2 = (perform fault (s, l) o).2.2 ∧
        System.Adds Shared.database Shared.searchAuditLog Shared.noted x
          (perform fault (x, l) o).2.1 entries (lossOf o (perform fault (s, l) o).1) := by
  have hnone : ∀ x : Shared,
      System.Adds Shared.database Shared.searchAuditLog Shared.noted x x [] 0 := .refl
  cases fault with
  | some e =>
    cases o with
    | logException message =>
      exact ⟨[], fun _ => rfl, fun x _ => ⟨rfl, rfl, rfl, (List.append_nil _).symm, rfl⟩⟩
    | _ => exact ⟨[], fun _ => rfl, fun x _ => ⟨rfl, rfl, hnone x⟩⟩
  | none =>
    cases o with
    | selectReports c stmt =>
      refine ⟨[], fun _ => rfl, fun x hx => ⟨?_, rfl, hnone x⟩⟩
      simp only [perform, answer, hx]
    | selectRows app c stmt =>
      refine ⟨[], fun _ => rfl, fun x hx => ⟨?_, rfl, hnone x⟩⟩
      simp only [perform, answer, hx]
    | commit c =>
      cases hstore : storeAll (l.get c).pending with
      | error e =>
        refine ⟨[], fun _ => rfl, fun x _ => ?_⟩
        simp only [perform, answer, hstore]
        exact ⟨trivial, trivial, hnone x⟩
      | ok rows =>
        refine ⟨rows, ?_, fun x _ => ?_⟩
        · simp [perform, answer, hstore, Committed, Except.isOk, Except.toBool]
        · simp only [perform, answer, hstore]
          exact ⟨trivial, trivial, rfl, rfl, (add_zero _).symm⟩
    | counterAdd amount =>
      exact ⟨[], fun _ => rfl, fun x _ => ⟨rfl, rfl, rfl, (List.append_nil _).symm,
        Prod.ext rfl (add_zero _).symm⟩⟩
    | logException message =>
      exact ⟨[], fun _ => rfl, fun x _ => ⟨rfl, rfl, rfl, (List.append_nil _).symm, rfl⟩⟩
    | _ => exact ⟨[], fun _ => rfl, fun x _ => ⟨rfl, rfl, hnone x⟩⟩

/-- **Calls read the tables only, and add to the rest**: a commit to the log, the
counter and the error log to what is noted. -/
theorem additive_searchSystem :
    (searchSystem decode intOf).Additive Shared.database Shared.searchAuditLog Shared.noted lossOf
      Committed where
  exec := by
    rintro s l o r s' l' ⟨fault, hinternal, hperform⟩
    obtain ⟨entries, hnone, hevery⟩ := perform_adds fault s l o
    have hself := (hevery s rfl).2.2
    rw [hperform] at hnone hself
    refine ⟨entries, hnone, hself, ?_⟩
    intro x hx
    obtain ⟨hanswer, hsessions, hadds⟩ := hevery x hx
    rw [hperform] at hanswer hsessions hadds
    exact ⟨(perform fault (x, l) o).2.1,
      ⟨fault, hinternal, Prod.ext hanswer (Prod.ext rfl hsessions)⟩, hadds⟩
  drift := by
    intro s s' h
    rw [h]
    exact ⟨rfl, rfl⟩

/-! ### One after the other -/

/-- Two requests, one run alone after the other. -/
theorem exists_passes_runWith (decode : String → Except JwtError Payload)
    (intOf : Json → Except ErrorType ℤ) (r r' : HttpRequest) (s : Shared) :
    let first := (search decode intOf r).runWith noFaults (s, {})
    let second := (search decode intOf r').runWith noFaults (first.2.1, {})
    ∃ ts states, (searchSystem decode intOf).Passes (s, []) states (second.2.1, ts) ∧
      ts.length = 2 ∧ (∀ th ∈ ts, th.Ended) ∧ ∀ y ∈ states, y.1.database = s.database := by
  intro first second
  obtain ⟨history, visited, hfirst, hdb⟩ := exists_visits_runWith decode intOf r s []
  obtain ⟨history', visited', hsecond, hdb'⟩ := exists_visits_runWith decode intOf r'
    first.2.1 [⟨r, first.2.2, history, .ofExcept first.1⟩]
  have hdatabase : first.2.1.database = s.database := database_runWith _ _ _
  have hvisited : ∀ y ∈ visited ++ visited', y.database = s.database := by
    rw [List.forall_mem_append]
    exact ⟨hdb, fun y hy => (hdb' y hy).trans hdatabase⟩
  obtain ⟨states, hpasses, hstates⟩ := (hfirst.trans hsecond).passes
  refine ⟨_, states, hpasses, rfl, ?_, ?_⟩
  · intro th hth
    simp only [List.nil_append, List.cons_append, List.mem_cons, List.not_mem_nil, or_false] at hth
    rcases hth with rfl | rfl
    · exact congrArg Option.isSome (Prog.result_ofExcept first.1)
    · exact congrArg Option.isSome (Prog.result_ofExcept second.1)
  · intro y hy
    rcases hstates y hy with hmem | heq
    · exact hvisited _ hmem
    · rw [heq]
      exact (database_runWith _ _ _).trans hdatabase

/-- **Requests next to each other are as good as requests one after the other.**  In
every run on tables that stay as they are, whatever fails and however the calls
interleave, the requests that have ended could have run in the order in which they
ended, each from its start to its end before the next one starts: every one makes the
same calls with the same answers and ends with the same result, and the audit log is
the same.  Once all have ended, so is the counter, and the error log has the same
messages.  At every state of the run, those that had ended by then come first. -/
theorem exists_serial_of_passes {before after : Shared} {ts : List Request}
    {states : List (Shared × List Request)}
    (hp : (searchSystem decode intOf).Passes (before, []) states (after, ts))
    (hstill : ∀ y ∈ states, y.1.database = before.database) :
    ∃ order s, order.Nodup ∧ (∀ i, i ∈ order ↔ System.EndedAt ts i) ∧
      (searchSystem decode intOf).Serial before (order.filterMap fun i => ts[i]?) s ∧
      s.database = after.database ∧ s.searchAuditLog = after.searchAuditLog ∧
      ((∀ th ∈ ts, th.Ended) → s.auditWriteFailures = after.auditWriteFailures ∧
        s.errorLog.Perm after.errorLog) ∧
      ∀ y ∈ states, ∃ done, done <+: order ∧ ∀ i, i ∈ done ↔ System.EndedAt y.2 i := by
  obtain ⟨order, s, hordered, hdone⟩ :=
    System.exists_serial additive_searchSystem endsAfter_search hp hstill
  refine ⟨order, s, hordered.nodup, hordered.mem_iff, hordered.serial, ?_, hordered.log_eq, ?_,
    hdone⟩
  · exact hordered.view_eq.trans (hstill _ hp.mem).symm
  · intro hended
    have hnoted := hordered.total_eq additive_searchSystem hended hp.reach
    exact ⟨congrArg Prod.fst hnoted, Multiset.coe_eq_coe.mp (congrArg Prod.snd hnoted)⟩

theorem exists_serial_of_passes_small :
    ∃ (after : Shared) (ts : List Request) (states : List (Shared × List Request)),
      (searchSystem (fun _ => .ok .small) intOfInt).Passes ({ database := .small }, []) states
        (after, ts) ∧ ts.length = 2 ∧ ∃ (order : List ℕ) (s : Shared),
      (∀ i, i ∈ order ↔ System.EndedAt ts i) ∧
      (searchSystem (fun _ => .ok .small) intOfInt).Serial { database := .small }
        (order.filterMap fun i => ts[i]?) s ∧ s.searchAuditLog = after.searchAuditLog ∧
      s.auditWriteFailures = after.auditWriteFailures := by
  obtain ⟨ts, states, hpasses, hlength, hended, hstill⟩ :=
    exists_passes_runWith (fun _ => .ok .small) intOfInt .small .small { database := .small }
  obtain ⟨order, s, -, hmem, hserial, -, hlog, hnoted, -⟩ := exists_serial_of_passes hpasses hstill
  exact ⟨_, ts, states, hpasses, hlength, order, s, hmem, hserial, hlog, (hnoted hended).1⟩

end SnapSearch
