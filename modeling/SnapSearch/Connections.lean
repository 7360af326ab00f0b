import SnapSearch.Lib.Pool
import SnapSearch.Snapshots

/-!
# Connections

`app/db.py` makes one engine for all sessions, so every session takes its
connection from one pool.  A session takes it with its first statement and gives it
back when its transaction ends: the search session of a request, which is never
committed, when the request ends.  Its audit session takes a second one while the
first is still out, so requests can hold up each other until one of them is told
that it has waited too long.

## Main definitions

* `engine` — the pool that all sessions share, for any number of connections.

## Main results

* `requests_finish` — **fewer requests than connections all finish.**
* `deadlock_iff` — **as many answered requests as connections can hold up each
  other for good**, and no fewer: each holds one connection and waits for a second.
* `losses_lt_of_stuck` — **the way out costs audit rows**, though nothing was wrong
  with the database.
-/

namespace SnapSearch

open System

/-! ### The pool -/

instance : Fintype Conn where
  elems := {.getDb, .getAuditDb}
  complete := by
    intro c
    cases c <;> decide

/-- The session whose connection an operation needs.  A commit with nothing to
write sends nothing. -/
def Op.needs (sessions : Sessions) : Op → Option Conn
  | .selectReports c _ => some c
  | .selectRows _ c _ => some c
  | .commit c => if (sessions.get c).pending = [] then none else some c
  | _ => none

/-- The connections held after an operation.  A statement leaves its transaction
open; its end gives the connection back, and a connection that failed may have been
given back. -/
def Op.keeps : (o : Op) → Except Exn (Res o) → List Conn → List Conn → Prop
  | .commit c, .ok _, held, held' => held' = held.erase c
  | .rollback c, .ok _, held, held' => held' = held.erase c
  | .commit c, .error _, held, held' => held' = held ∨ held' = held.erase c
  | .rollback c, .error _, held, held' => held' = held ∨ held' = held.erase c
  | .selectReports c _, .error _, held, held' => held' = held ∨ held' = held.erase c
  | .selectRows _ c _, .error _, held, held' => held' = held ∨ held' = held.erase c
  | _, _, held, held' => held' = held

/-- `engine`: the pool of the connections that may be out at one time. -/
def engine (capacity : ℕ) : Pool Sessions Exn Res Conn where
  capacity := capacity
  needs := Op.needs
  keeps := Op.keeps
  timeout := .other "TimeoutError"

/-- A request with the connections of its sessions. -/
abbrev Holder := Client HttpRequest Sessions Exn Res SearchResponse Conn

theorem exists_keeps (o : Op) (r : Except Exn (Res o)) (held : List Conn) :
    ∃ held', o.keeps r held held' := by
  cases o <;> cases r <;>
    first
    | exact ⟨_, rfl⟩
    | exact ⟨_, Or.inl rfl⟩

theorem sublist_of_keeps (o : Op) (r : Except Exn (Res o)) (held held' : List Conn)
    (h : o.keeps r held held') : held'.Sublist held := by
  have herase : ∀ c : Conn, held' = held ∨ held' = held.erase c → held'.Sublist held := by
    intro c hc
    rcases hc with rfl | rfl
    · exact List.Sublist.refl _
    · exact List.erase_sublist
  cases o with
  | selectReports c stmt =>
    cases r with
    | ok a => exact herase c (Or.inl h)
    | error e => exact herase c h
  | selectRows app c stmt =>
    cases r with
    | ok a => exact herase c (Or.inl h)
    | error e => exact herase c h
  | commit c =>
    cases r with
    | ok a => exact herase c (Or.inr h)
    | error e => exact herase c h
  | rollback c =>
    cases r with
    | ok a => exact herase c (Or.inr h)
    | error e => exact herase c h
  | _ => exact herase .getDb (Or.inl h)

section Runs

variable {decode : String → Except JwtError Payload} {intOf : Json → Except ErrorType ℤ}
  {capacity : ℕ}

theorem exists_exec (s : Shared) (l : Sessions) (o : Op) :
    ∃ r s' l', (searchSystem decode intOf).exec s l o r s' l' := by
  exact ⟨_, _, _, none, by simp, rfl⟩

/-! ### Requests that finish -/

theorem within_write (session : Conn) (rows : List SearchAuditLog) :
    (write session rows).Within 7 := by
  have hlog : ∀ message, (logException message).Within 1 :=
    fun message => ⟨le_rfl, fun _ => trivial⟩
  have hfailed : (writeFailed session).Within (1 + ((1 + 1) + (1 + 1))) := by
    apply Prog.within_bind (hlog _)
    intro _
    apply Prog.within_bind
    · exact Prog.within_handle (Prog.within_perform _) fun _ => hlog _
    · intro _
      exact Prog.within_handle (Prog.within_perform _) fun _ => hlog _
  have hbody : (addAll session rows >>= fun _ => commit session).Within (1 + 1) :=
    Prog.within_bind (Prog.within_perform _) fun _ => Prog.within_perform _
  exact (Prog.within_handle hbody fun _ => hfailed).mono (by omega)

theorem AtMostOneCall.within {α : Type} {session : Conn} {p : Py α}
    (h : AtMostOneCall session p) : p.Within 1 := by
  rcases h with ⟨e, rfl⟩ | ⟨o, f, -, rfl⟩
  · trivial
  · refine ⟨le_rfl, ?_⟩
    intro x
    exact Prog.within_ofExcept _ _

theorem within_searchLoop (request : SearchRequest) (userId : String) (apps : List String)
    (results : List (String × AppSection)) (counts : List (String × ℕ)) :
    (searchLoop .getDb request userId apps results counts).Within apps.length := by
  induction apps generalizing results counts with
  | nil => trivial
  | cons app apps ih =>
    rw [searchLoop]
    cases strategies.lookup app with
    | none => trivial
    | some strategy =>
      have hfirst := (strategy.atMostOneCall_search .getDb request.query userId
        (request.cursorFor app) request.limit).within
      rw [List.length_cons, Nat.add_comm]
      exact Prog.within_bind hfirst fun found => ih _ _

/-- A request makes at most ten calls: a statement for each of three apps, and what
the writer does when all that can fail fails. -/
theorem within_search (decode : String → Except JwtError Payload)
    (intOf : Json → Except ErrorType ℤ) (r : HttpRequest) : (search decode intOf r).Within 10 := by
  rcases search_cases decode intOf r with
    ⟨e, hraise⟩ | ⟨body, context, request, -, -, -, hsearch⟩
  · rw [hraise]
    trivial
  · rw [hsearch]
    unfold runSearch
    split
    · refine (Prog.within_bind (m := 0) (within_write _ _) ?_).mono (by omega)
      intro _
      exact Prog.within_ofExcept 0 (.error searchDenied)
    · have happs : context.searchApps.length ≤ 3 := List.length_filter_le _ _
      refine (Prog.within_bind (m := 7 + 0) (within_searchLoop _ _ _ _ _) ?_).mono (by omega)
      intro found
      apply Prog.within_bind (within_write _ _)
      intro _
      exact Prog.within_ofExcept 0 (.ok _)

theorem sound_of_reach {before : Shared} {x : Shared × List Holder}
    (hr : Pool.Reach (searchSystem decode intOf) (engine capacity) (before, []) x) :
    Pool.Sound (engine capacity) x.2 :=
  Pool.Sound.reach sublist_of_keeps ⟨by simp, Nat.zero_le _⟩ hr

/-- What answering a call keeps of a request's program holds of what is left of
every request. -/
theorem forall_prog_of_pool {Q : Py SearchResponse → Prop}
    (hprog : ∀ r, Q (search decode intOf r)) (hcall : ∀ o k r, Q (.call o k) → Q (k r))
    {before : Shared} {x : Shared × List Holder}
    (hr : Pool.Reach (searchSystem decode intOf) (engine capacity) (before, []) x) :
    ∀ c ∈ x.2, Q c.thread.prog := by
  intro c hc
  exact forall_prog_of_reach (M := searchSystem decode intOf) hprog hcall
    (Pool.reach_threads hr) c.thread (List.mem_map_of_mem hc)

theorem within_of_reach {before : Shared} {x : Shared × List Holder}
    (hr : Pool.Reach (searchSystem decode intOf) (engine capacity) (before, []) x) :
    ∀ c ∈ x.2, c.thread.prog.Within 10 := by
  refine forall_prog_of_pool (within_search decode intOf) ?_ hr
  intro o k r h
  exact (h.2 r).mono (by omega)

/-- **Fewer requests than connections all finish.**  From any state that requests
reach with a pool, whatever has failed or expired on the way: while fewer of them
are unfinished than there are connections, none makes more than 33 moves, only the
unfinished move, and they can only stop moving once all of them have been answered
and hold nothing. -/
theorem requests_finish {before : Shared} {x y : Shared × List Holder}
    (hr : Pool.Reach (searchSystem decode intOf) (engine capacity) (before, []) x)
    (hfew : (x.2.countP fun c => !Pool.finished c) < capacity) {movers : List ℕ}
    (hm : Pool.Moves (searchSystem decode intOf) (engine capacity) movers x y) :
    (∀ i, movers.count i ≤ 33) ∧
      (∀ i ∈ movers, ∃ c, x.2[i]? = some c ∧ Pool.finished c = false) ∧
        (Pool.Stuck (searchSystem decode intOf) (engine capacity) y →
          ∀ c ∈ y.2, Pool.finished c = true) := by
  have hwithin := within_of_reach hr
  have hbounded : Pool.Bounded x.2 := fun c hc => ⟨10, hwithin c hc⟩
  refine ⟨Pool.count_le sublist_of_keeps hwithin hm, ?_, ?_⟩
  · intro i hi
    exact Pool.unfinished_of_mem sublist_of_keeps hbounded hm hi
  · intro hstuck
    obtain ⟨-, -, hcount⟩ := Pool.count_add_weightAt_le sublist_of_keeps hbounded hm
    -- two sessions: a request that waits for one connection holds at most the other
    have hcard : Fintype.card Conn - 1 = 1 := rfl
    refine Pool.finished_of_stuck exists_exec exists_keeps
      (sound_of_reach (hr.trans hm.reach)) ?_ hstuck
    rw [hcard, Nat.one_mul]
    exact Nat.lt_of_le_of_lt hcount hfew

/-- Two requests on a pool of three connections, from their start until neither can
move: each has moved, and both are answered. -/
theorem requests_finish_small :
    let decode : String → Except JwtError Payload := fun _ => .ok .small
    let M := searchSystem decode intOfInt
    let c : Holder := ⟨⟨.small, {}, [], search decode intOfInt .small⟩, []⟩
    ∃ movers y, Pool.Moves M (engine 3) movers ({ database := .small }, [c, c]) y ∧
      Pool.Stuck M (engine 3) y ∧ 0 ∈ movers ∧ 1 ∈ movers ∧ (∀ i, movers.count i ≤ 33) ∧
        ∀ d ∈ y.2, Pool.finished d = true := by
  intro decode M c
  have hfirst : Pool.Step M (engine 3) ({ database := .small }, [])
      ({ database := .small }, [c]) := .spawn HttpRequest.small _ []
  have hsecond : Pool.Step M (engine 3) ({ database := .small }, [c])
      ({ database := .small }, [c, c]) := .spawn HttpRequest.small _ [c]
  have hr := (Relation.ReflTransGen.single hfirst).tail hsecond
  have hopen : Pool.finished c = false := by decide +kernel
  obtain ⟨movers, y, hm, hstuck⟩ := Pool.exists_moves_stuck (M := M) (P := engine 3)
    (s := { database := .small }) sublist_of_keeps fun c hc => ⟨10, within_of_reach hr c hc⟩
  obtain ⟨hcount, -, hend⟩ := requests_finish hr (by simp [hopen]) hm
  have hfinished := hend hstuck
  -- a request that has not moved has not finished either
  have hmoves : ∀ i, ([c, c] : List Holder)[i]? = some c → i ∈ movers := by
    intro i hi
    by_contra hnot
    rw [← hm.getElem?_of_notMem hnot] at hi
    have := hfinished c (List.mem_of_getElem? hi)
    rw [hopen] at this
    cases this
  exact ⟨movers, y, hm, hstuck, hmoves 0 rfl, hmoves 1 rfl, hcount, hfinished⟩

/-! ### Requests that hold up each other -/

/-- What a statement answers is told by the shared state. -/
theorem perform_reads {o : Op} (ho : o.Reads .getDb) (s : Shared) (l l' : Sessions) :
    (perform none (s, l) o).1 = (perform none (s, l') o).1 := by
  cases o with
  | selectReports c stmt => rfl
  | selectRows app c stmt => rfl
  | _ => exact ho.elim

/-- What a statement leaves: the shared state, and the audit session. -/
theorem perform_reads_snd {o : Op} (ho : o.Reads .getDb) (s : Shared) (l : Sessions) :
    (perform none (s, l) o).2.1 = s ∧ (perform none (s, l) o).2.2.auditDb = l.auditDb := by
  cases o with
  | selectReports c stmt =>
    cases ho
    exact ⟨rfl, rfl⟩
  | selectRows app c stmt =>
    cases ho
    exact ⟨rfl, rfl⟩
  | _ => exact ho.elim

/-- A statement may leave its session the connection it has. -/
theorem keeps_reads {o : Op} (ho : o.Reads .getDb) (r : Except Exn (Res o)) (held : List Conn) :
    o.keeps r held held := by
  cases o with
  | selectReports c stmt =>
    cases r with
    | ok a => rfl
    | error e => exact Or.inl rfl
  | selectRows app c stmt =>
    cases r with
    | ok a => rfl
    | error e => exact Or.inl rfl
  | _ => exact ho.elim

theorem needs_reads {o : Op} (ho : o.Reads .getDb) (l : Sessions) : o.needs l = some .getDb := by
  cases o with
  | selectReports c stmt => exact congrArg some ho
  | selectRows app c stmt => exact congrArg some ho
  | _ => exact ho.elim

/-- The last request makes its next call, which does not fail. -/
theorem move_last (s : Shared) (cs : List Holder) (r : HttpRequest) (l : Sessions)
    (history : List ((o : Op) × Except Exn (Res o))) (o : Op)
    (k : Except Exn (Res o) → Py SearchResponse) (held : List Conn)
    (hready : (engine capacity).waitsFor (⟨⟨r, l, history, .call o k⟩, held⟩ : Holder) = none)
    (hkeeps : o.keeps (perform none (s, l) o).1 held held) :
    Pool.Move (searchSystem decode intOf) (engine capacity) cs.length
      (s, cs ++ [⟨⟨r, l, history, .call o k⟩, held⟩])
      ((perform none (s, l) o).2.1, cs ++ [⟨⟨r, (perform none (s, l) o).2.2,
        history ++ [⟨o, (perform none (s, l) o).1⟩], k (perform none (s, l) o).1⟩, held⟩]) := by
  have hlast : (cs ++ [(⟨⟨r, l, history, .call o k⟩, held⟩ : Holder)])[cs.length]? =
      some ⟨⟨r, l, history, .call o k⟩, held⟩ := by simp
  have hexec := Pool.Move.exec (M := searchSystem decode intOf) (P := engine capacity) hlast hready
    ⟨none, by simp, rfl⟩ hkeeps
  rwa [List.set_append_right _ _ le_rfl, Nat.sub_self, List.set_cons_zero] at hexec

/-- A request runs its statements over one connection, which it keeps. -/
theorem reach_reads {s : Shared} {cs : List Holder} {r : HttpRequest} {p q : Py SearchResponse}
    {h : List ((o : Op) × Except Exn (Res o))} (hfollows : p.Follows h q)
    (hreads : ∀ e ∈ h, e.1.Reads .getDb ∧ ∃ l, (perform none (s, l) e.1).1 = e.2)
    (l : Sessions) (history : List ((o : Op) × Except Exn (Res o))) {held : List Conn}
    (hheld : held = [.getDb] ∨ held = [] ∧ Pool.inUse cs < capacity) :
    ∃ l' held', Pool.Reach (searchSystem decode intOf) (engine capacity)
        (s, cs ++ [⟨⟨r, l, history, p⟩, held⟩]) (s, cs ++ [⟨⟨r, l', history ++ h, q⟩, held'⟩]) ∧
      l'.auditDb = l.auditDb ∧ (held' = [.getDb] ∨ h = [] ∧ held' = held) := by
  induction hfollows generalizing l history held with
  | start p =>
    refine ⟨l, held, ?_, rfl, Or.inr ⟨rfl, rfl⟩⟩
    rw [List.append_nil]
    exact Relation.ReflTransGen.refl
  | @call o k x h q hrest ih =>
    rw [List.forall_mem_cons] at hreads
    obtain ⟨⟨ho, l₀, hx⟩, hreads⟩ := hreads
    have hneeds := needs_reads ho l
    -- the connection is taken with the first statement
    have htake : Pool.Reach (searchSystem decode intOf) (engine capacity)
        (s, cs ++ [⟨⟨r, l, history, .call o k⟩, held⟩])
        (s, cs ++ [⟨⟨r, l, history, .call o k⟩, [.getDb]⟩]) := by
      rcases hheld with rfl | ⟨rfl, hfree⟩
      · exact Relation.ReflTransGen.refl
      · have hlast : (cs ++ [(⟨⟨r, l, history, .call o k⟩, []⟩ : Holder)])[cs.length]? =
            some ⟨⟨r, l, history, .call o k⟩, []⟩ := by simp
        have hcheckout := Pool.Move.checkout (M := searchSystem decode intOf)
          (P := engine capacity) (s := s) (x := .getDb) hlast
          (by simp [Pool.waitsFor, engine, hneeds]) (by simpa [Pool.inUse, engine] using hfree)
        rw [List.set_append_right _ _ le_rfl, Nat.sub_self, List.set_cons_zero] at hcheckout
        exact Relation.ReflTransGen.single (.move hcheckout)
    obtain ⟨hshared, haudit⟩ := perform_reads_snd ho s l
    have hexec : Pool.Move (searchSystem decode intOf) (engine capacity) _ _ _ :=
      move_last s cs r l history o k [.getDb] (by simp [Pool.waitsFor, engine, hneeds])
        (keeps_reads ho _ _)
    rw [hshared, perform_reads ho s l l₀, hx] at hexec
    obtain ⟨l', held', hreach, haudit', hheld'⟩ := ih hreads (perform none (s, l) o).2.2
      (history ++ [⟨o, x⟩]) (Or.inl rfl)
    refine ⟨l', held', ?_, haudit'.trans haudit, Or.inl ?_⟩
    · rw [List.append_assoc, List.singleton_append] at hreach
      exact (htake.tail (.move hexec)).trans hreach
    · rcases hheld' with hheld' | ⟨-, hheld'⟩
      · exact hheld'
      · exact hheld'

/-- A request that waits to write its audit rows while it holds the connection of
its search. -/
def WaitsToRecord (c : Holder) : Prop :=
  c.held = [.getDb] ∧ c.thread.locals.auditDb.pending ≠ [] ∧
    ∃ k, c.thread.prog = .call (.commit .getAuditDb) k

theorem WaitsToRecord.waitsFor {c : Holder} (h : WaitsToRecord c) :
    (engine capacity).waitsFor c = some .getAuditDb := by
  obtain ⟨⟨t, l, history, p⟩, held⟩ := c
  obtain ⟨rfl, hpending, k, rfl⟩ := h
  simp [Pool.waitsFor, engine, Op.needs, hpending]

/-- A loop over some app makes a call before it gives a result. -/
theorem searchLoop_ne_pure {request : SearchRequest} {userId app : String} {apps : List String}
    {results : List (String × AppSection)} {counts : List (String × ℕ)}
    (found : List (String × AppSection) × List (String × ℕ)) :
    searchLoop .getDb request userId (app :: apps) results counts ≠ .pure found := by
  intro h
  rw [searchLoop] at h
  cases hlookup : strategies.lookup app with
  | none =>
    rw [hlookup] at h
    cases h
  | some strategy =>
    rw [hlookup] at h
    rcases strategy.atMostOneCall_search .getDb request.query userId (request.cursorFor app)
      request.limit with ⟨e, hsearch⟩ | ⟨o, f, -, hsearch⟩
    · simp only [hsearch] at h
      cases h
    · simp only [hsearch] at h
      cases h

/-- A request that is answered alone on a database comes to wait for a second
connection there. -/
theorem reach_waitsToRecord {r : HttpRequest} {s : Shared} {response : SearchResponse}
    (h : (search decode intOf r).runOn s.database = .ok response) {cs : List Holder}
    (hfree : Pool.inUse cs < capacity) :
    ∃ c : Holder, Pool.Reach (searchSystem decode intOf) (engine capacity) (s, cs) (s, cs ++ [c]) ∧
      WaitsToRecord c := by
  rcases search_cases decode intOf r with
    ⟨e, hraise⟩ | ⟨body, context, request, -, -, -, hsearch⟩
  · rw [hraise] at h
    cases h
  rw [hsearch] at h
  by_cases happs : context.searchApps = []
  · rw [Py.runOn, run_runSearch_of_denied happs] at h
    cases h
  -- alone, the loop collects a section for every app
  obtain ⟨w₁, -, hrun⟩ := run_runSearch noFaults ({ database := s.database }, {}) context request
  rw [Py.runOn, hrun, searchOutcome, if_neg happs] at h
  cases hcollect : collect noFaults s.database request context.userId context.searchApps with
  | error e =>
    rw [hcollect] at h
    cases h
  | ok found =>
    -- the statements of the loop, run on the shared state
    obtain ⟨history, hfollows, hreads⟩ := Prog.exists_follows_run
      (fun w o => perform none w o) (P := fun w : World => w.1 = s)
      (fun w o ho hw => (perform_reads_snd ho w.1 w.2).1.trans hw)
      (calls_searchLoop .getDb request context.userId context.searchApps [] []) (s := (s, {})) rfl
    obtain ⟨w₂, hloop, -⟩ := run_searchLoop_start noFaults (s, {}) context request
    have hresult : ((searchLoop .getDb request context.userId context.searchApps [] []).run
        (fun w o => perform none w o) (s, {})).1 = .ok (sectionsOf found, countsOf found) := by
      rw [hcollect] at hloop
      exact congrArg Prod.fst hloop
    rw [hresult] at hfollows
    have hsome : history ≠ [] := by
      rintro rfl
      obtain ⟨app, apps, hcons⟩ := List.exists_cons_of_ne_nil happs
      rw [hcons] at hfollows
      exact searchLoop_ne_pure _ hfollows.eq_of_nil.symm
    have hrows : okRows context request.query (countsOf found) ≠ [] := by
      intro hnil
      rw [okRows, countsOf, List.map_map, List.map_eq_nil_iff] at hnil
      have hmap := map_fst_of_collect hcollect
      rw [hnil] at hmap
      exact happs hmap.symm
    -- what is left of the request then: its rows are added, and committed
    have hrunSearch : ∃ k k', (search decode intOf r).Follows history
        (.call (.addAll .getAuditDb (okRows context request.query (countsOf found))) k) ∧
          k (.ok ()) = .call (.commit .getAuditDb) k' := by
      rw [hsearch, runSearch, if_neg happs]
      exact ⟨_, _, hfollows.bind _, rfl⟩
    obtain ⟨k, k', hfollows, hk⟩ := hrunSearch
    have hreads' : ∀ e ∈ history, e.1.Reads .getDb ∧ ∃ l, (perform none (s, l) e.1).1 = e.2 := by
      intro e he
      obtain ⟨ho, w, rfl, hw⟩ := hreads e he
      exact ⟨ho, w.2, hw⟩
    have hstart : ([] : List Conn) = [.getDb] ∨ ([] : List Conn) = [] ∧ Pool.inUse cs < capacity :=
      Or.inr ⟨rfl, hfree⟩
    obtain ⟨l, held, hreach, haudit, hheld⟩ :=
      reach_reads (r := r) hfollows hreads' {} [] hstart
    obtain rfl := hheld.resolve_right fun hnil => hsome hnil.1
    have hspawn : Pool.Step (searchSystem decode intOf) (engine capacity) (s, cs)
        (s, cs ++ [⟨⟨r, {}, [], search decode intOf r⟩, []⟩]) := .spawn r s cs
    -- adding rows needs no connection
    have hadd : Pool.Move (searchSystem decode intOf) (engine capacity) _ _ _ :=
      move_last s cs r l ([] ++ history) (.addAll .getAuditDb _) k [.getDb] rfl rfl
    change Pool.Move _ _ _ _ (s, cs ++ [⟨⟨r, _, _, k (.ok ())⟩, _⟩]) at hadd
    rw [hk] at hadd
    refine ⟨_, (Relation.ReflTransGen.head hspawn hreach).tail (.move hadd), rfl, ?_, k', rfl⟩
    show l.auditDb.pending ++ _ ≠ []
    rw [haudit]
    exact hrows

theorem inUse_of_waitsToRecord {cs : List Holder} (h : ∀ c ∈ cs, WaitsToRecord c) :
    Pool.inUse cs = cs.length := by
  induction cs with
  | nil => rfl
  | cons c cs ih =>
    rw [List.forall_mem_cons] at h
    have hrest := ih h.2
    have hfirst : c.held.length = 1 := by rw [h.1.1]; rfl
    show c.held.length + Pool.inUse cs = cs.length + 1
    omega

/-- Requests that all wait to record their search, on an empty pool, are stuck. -/
theorem stuck_of_waitsToRecord {s : Shared} {cs : List Holder} (h : ∀ c ∈ cs, WaitsToRecord c)
    (hlen : capacity ≤ cs.length) :
    Pool.Stuck (searchSystem decode intOf) (engine capacity) (s, cs) := by
  intro hmove
  obtain ⟨i, y, hmove⟩ := hmove
  cases hmove with
  | checkout hi hwaits hfree =>
    rw [inUse_of_waitsToRecord h] at hfree
    exact absurd hfree (Nat.not_lt.mpr hlen)
  | exec hi hready =>
    rw [(h _ (List.mem_of_getElem? hi)).waitsFor] at hready
    cases hready
  | close hi hended =>
    obtain ⟨-, -, k, hprog⟩ := h _ (List.mem_of_getElem? hi)
    rw [hprog] at hended
    cases hended

/-- As many requests as there are connections come to wait for one more each. -/
theorem exists_waitsToRecord {r : HttpRequest} {s : Shared} {response : SearchResponse}
    (h : (search decode intOf r).runOn s.database = .ok response) (n : ℕ) (hn : n ≤ capacity) :
    ∃ cs : List Holder,
      Pool.Reach (searchSystem decode intOf) (engine capacity) (s, []) (s, cs) ∧
        cs.length = n ∧ ∀ c ∈ cs, WaitsToRecord c := by
  induction n with
  | zero => exact ⟨[], Relation.ReflTransGen.refl, rfl, by simp⟩
  | succ n ih =>
    obtain ⟨cs, hreach, hlen, hall⟩ := ih (by omega)
    have hfree : Pool.inUse cs < capacity := by
      rw [inUse_of_waitsToRecord hall]
      omega
    obtain ⟨c, hnext, hwaits⟩ := reach_waitsToRecord h hfree
    refine ⟨cs ++ [c], hreach.trans hnext, by simp [hlen], ?_⟩
    intro d hd
    rcases List.mem_append.mp hd with hd | hd
    · exact hall d hd
    · rw [List.mem_singleton] at hd
      rw [hd]
      exact hwaits

/-- The small request is answered on the small database. -/
theorem exists_runOn_small :
    ∃ response, (search (fun _ => .ok .small) intOfInt .small).runOn .small
      = .ok response := by
  exact exists_eq_ok_of_isOk (by decide +kernel)

/-- A search reads, then it writes to the audit trail. -/
theorem phased_search (decode : String → Except JwtError Payload)
    (intOf : Json → Except ErrorType ℤ) (r : HttpRequest) :
    (search decode intOf r).Phased (Op.Reads .getDb) (Op.Audit .getAuditDb) := by
  rcases search_cases decode intOf r with
    ⟨e, hraise⟩ | ⟨body, context, request, -, -, -, hsearch⟩
  · rw [hraise]
    trivial
  · rw [hsearch]
    unfold runSearch
    split
    · refine (Prog.calls_bind (calls_write _ _) ?_).phased
      intro _
      exact Prog.calls_ofExcept (.error searchDenied)
    · apply Prog.phased_bind (calls_searchLoop _ _ _ _ _ _)
      intro found
      apply Prog.calls_bind (calls_write _ _)
      intro _
      exact Prog.calls_ofExcept (.ok _)

/-- An operation of the audit trail needs no connection but that of its session. -/
theorem needs_audit {o : Op} (ho : o.Audit .getAuditDb) {l : Sessions} {x : Conn}
    (h : o.needs l = some x) :
    x = .getAuditDb ∧ o = .commit .getAuditDb ∧ l.auditDb.pending ≠ [] := by
  cases o with
  | commit c =>
    cases ho
    change (if l.auditDb.pending = [] then none else some .getAuditDb) = some x at h
    split at h
    · cases h
    · next hpending => exact ⟨(Option.some.inj h).symm, rfl, hpending⟩
  | selectReports => exact ho.elim
  | selectRows => exact ho.elim
  | _ => cases h

/-- Who holds the connection of its audit session reads no more. -/
def Reading (c : Holder) : Prop :=
  c.thread.prog.Phased (Op.Reads .getDb) (Op.Audit .getAuditDb) ∧
    (.getAuditDb ∈ c.held → c.thread.prog.Calls (Op.Audit .getAuditDb))

/-- A call keeps the order: what is held after it was held before. -/
theorem Reading.call {r : HttpRequest} {l l' : Sessions}
    {history : List ((o : Op) × Except Exn (Res o))} {o : Op}
    {k : Except Exn (Res o) → Py SearchResponse} {held held' : List Conn}
    (h : Reading ⟨⟨r, l, history, .call o k⟩, held⟩) (hsub : held'.Sublist held)
    (x : Except Exn (Res o)) : Reading ⟨⟨r, l', history ++ [⟨o, x⟩], k x⟩, held'⟩ := by
  refine ⟨h.1.next x, ?_⟩
  intro hmem
  exact (h.2 (hsub.subset hmem)).2 x

/-- **Requests read first**: who holds the connection of its audit session only
writes to the audit trail. -/
theorem reading_of_reach {before : Shared} {x : Shared × List Holder}
    (hr : Pool.Reach (searchSystem decode intOf) (engine capacity) (before, []) x) :
    ∀ c ∈ x.2, Reading c := by
  induction hr with
  | refl => simp
  | tail _ hstep ih =>
    -- one request is replaced, the others stay
    have hset : ∀ (cs : List Holder) (i : ℕ) (c' : Holder), (∀ c ∈ cs, Reading c) → Reading c' →
        ∀ c ∈ cs.set i c', Reading c := by
      intro cs i c' hall hc' c hc
      rcases List.mem_or_eq_of_mem_set hc with hc | rfl
      · exact hall c hc
      · exact hc'
    cases hstep with
    | @move _ _ i hmove =>
      cases hmove with
      | @checkout _ cs c x hi hwaits hfree =>
        have hreading := ih c (List.mem_of_getElem? hi)
        refine hset cs i _ ih ⟨hreading.1, ?_⟩
        intro hmem
        rcases List.mem_cons.mp hmem with rfl | hmem
        · -- the connection of the audit session is taken for a commit
          obtain ⟨⟨r, l, history, p⟩, held⟩ := c
          cases p with
          | call o k =>
            have hneeds := (Option.filter_eq_some_iff.mp hwaits).1
            rcases hreading.1 with hread | haudit
            · rw [show (engine capacity).needs l o = some .getDb from needs_reads hread.1 l]
                at hneeds
              cases hneeds
            · exact haudit
          | _ => cases hwaits
        · exact hreading.2 hmem
      | exec hi hready hexec hkeeps =>
        exact hset _ _ _ ih
          ((ih _ (List.mem_of_getElem? hi)).call (sublist_of_keeps _ _ _ _ hkeeps) _)
      | close hi hended hheld =>
        refine hset _ _ _ ih ⟨(ih _ (List.mem_of_getElem? hi)).1, ?_⟩
        intro hmem
        cases hmem
    | spawn r s cs =>
      intro c hc
      rcases List.mem_append.mp hc with hc | hc
      · exact ih c hc
      · rw [List.mem_singleton] at hc
        subst hc
        refine ⟨phased_search decode intOf r, ?_⟩
        intro hmem
        cases hmem
    | drift => exact ih
    | expire hi hwaits hexec =>
      exact hset _ _ _ ih ((ih _ (List.mem_of_getElem? hi)).call (List.Sublist.refl _) _)

/-- A request that waits while it holds a connection waits to record its search. -/
theorem waitsToRecord_of_waitsFor {c : Holder} (hreading : Reading c) (hheld : c.held ≠ [])
    {x : Conn} (h : (engine capacity).waitsFor c = some x) (hnodup : c.held.Nodup) :
    WaitsToRecord c := by
  have hmem := Pool.notMem_held_of_waitsFor h
  obtain ⟨⟨r, l, history, p⟩, held⟩ := c
  cases p with
  | call o k =>
    have hneeds : o.needs l = some x := (Option.filter_eq_some_iff.mp h).1
    -- it does not hold the connection of its audit session, or it would not wait
    have haudit : Conn.getAuditDb ∉ held := by
      intro hin
      obtain ⟨rfl, -⟩ := needs_audit (hreading.2 hin).1 hneeds
      exact hmem hin
    have honly : held = [.getDb] := by
      cases held with
      | nil => exact absurd rfl hheld
      | cons y rest =>
        cases y with
        | getAuditDb => exact absurd List.mem_cons_self haudit
        | getDb =>
          cases rest with
          | nil => rfl
          | cons z rest => cases z <;> simp at hnodup haudit
    subst honly
    rcases hreading.1 with hread | hread
    · rw [needs_reads hread.1 l] at hneeds
      cases hneeds
      exact absurd List.mem_cons_self hmem
    · obtain ⟨-, rfl, hpending⟩ := needs_audit hread.1 hneeds
      exact ⟨rfl, hpending, k, rfl⟩
  | _ => cases h

/-- Whoever holds a connection in a stuck state waits to record its search. -/
theorem waitsToRecord_of_stuck {before : Shared} {x : Shared × List Holder}
    (hr : Pool.Reach (searchSystem decode intOf) (engine capacity) (before, []) x)
    (hstuck : Pool.Stuck (searchSystem decode intOf) (engine capacity) x) :
    ∀ c ∈ x.2, c.held ≠ [] → WaitsToRecord c := by
  intro c hc hheld
  obtain ⟨hcases, -⟩ := Pool.cases_of_stuck exists_exec exists_keeps hstuck
  rcases hcases c hc with hfinished | hsome
  · simp only [Pool.finished, Bool.and_eq_true, List.isEmpty_iff] at hfinished
    exact absurd hfinished.2 hheld
  · obtain ⟨w, hw⟩ := Option.isSome_iff_exists.mp hsome
    exact waitsToRecord_of_waitsFor (reading_of_reach hr c hc) hheld hw
      ((sound_of_reach hr).nodup c hc)

/-- A request that waits to record its search has not finished. -/
theorem WaitsToRecord.finished {c : Holder} (h : WaitsToRecord c) :
    Pool.finished c = false := by
  obtain ⟨-, -, k, hprog⟩ := h
  rw [Pool.finished, hprog]
  rfl

/-- **As many answered requests as connections can hold up each other for good**,
and no fewer can, whatever they ask and whatever fails: a state that no request can
leave unless it gives up is reached with at most `n` requests exactly where `n` is at
least the number of connections.  There is one in which each request holds the
connection of its search and waits for another to commit its audit rows, and in every
such state those that hold a connection are requests of this kind. -/
theorem deadlock_iff {r : HttpRequest} {s : Shared} {response : SearchResponse}
    (h : (search decode intOf r).runOn s.database = .ok response) (hcapacity : 1 ≤ capacity) :
    (∀ n, (∃ x : Shared × List Holder,
      Pool.Reach (searchSystem decode intOf) (engine capacity) (s, []) x ∧ x.2.length ≤ n ∧
        Pool.Stuck (searchSystem decode intOf) (engine capacity) x ∧
        ∃ c ∈ x.2, Pool.finished c = false) ↔ capacity ≤ n) ∧
    (∃ x : Shared × List Holder,
      Pool.Reach (searchSystem decode intOf) (engine capacity) (s, []) x ∧
        x.2.length = capacity ∧ Pool.Stuck (searchSystem decode intOf) (engine capacity) x ∧
        ∀ c ∈ x.2, WaitsToRecord c) ∧
    ∀ x : Shared × List Holder,
      Pool.Reach (searchSystem decode intOf) (engine capacity) (s, []) x →
        Pool.Stuck (searchSystem decode intOf) (engine capacity) x →
        ∀ c ∈ x.2, c.held ≠ [] → WaitsToRecord c := by
  obtain ⟨cs, hreach, hlen, hall⟩ := exists_waitsToRecord h capacity le_rfl
  have hstuck : Pool.Stuck (searchSystem decode intOf) (engine capacity) (s, cs) :=
    stuck_of_waitsToRecord hall hlen.ge
  refine ⟨?_, ⟨(s, cs), hreach, hlen, hstuck, hall⟩, fun x hr => waitsToRecord_of_stuck hr⟩
  intro n
  constructor
  · intro hdeadlock
    obtain ⟨⟨s', cs⟩, hreach, hlen, hstuck, hopen⟩ := hdeadlock
    have hle := Pool.capacity_le_of_stuck exists_exec exists_keeps (sound_of_reach hreach) hstuck
      hopen
    have hcard : Fintype.card Conn - 1 = 1 := rfl
    rw [hcard, Nat.one_mul] at hle
    exact (hle.trans List.countP_le_length).trans hlen
  · intro hn
    obtain ⟨c, hc⟩ := List.exists_mem_of_length_pos (by omega : 0 < cs.length)
    exact ⟨(s, cs), hreach, hlen.le.trans hn, hstuck, c, hc, (hall c hc).finished⟩

theorem deadlock_iff_small :
    let M := searchSystem (fun _ => .ok .small) intOfInt
    (∃ x : Shared × List Holder, Pool.Reach M (engine 15) ({ database := .small }, []) x ∧
      x.2.length = 15 ∧ Pool.Stuck M (engine 15) x ∧ ∀ c ∈ x.2, WaitsToRecord c) ∧
    ¬ ∃ x : Shared × List Holder, Pool.Reach M (engine 15) ({ database := .small }, []) x ∧
      x.2.length ≤ 14 ∧ Pool.Stuck M (engine 15) x ∧ ∃ c ∈ x.2, Pool.finished c = false := by
  intro M
  obtain ⟨response, hresponse⟩ := exists_runOn_small
  obtain ⟨hiff, hstuck, -⟩ := deadlock_iff (s := { database := .small }) hresponse
    (by decide : 1 ≤ 15)
  refine ⟨hstuck, ?_⟩
  intro hdeadlock
  exact absurd ((hiff 14).mp hdeadlock) (by decide)

/-! ### The way out -/

/-- The commit of the request's audit rows has been given up. -/
def CommitFailed (c : Holder) : Prop :=
  ∃ e, (⟨.commit .getAuditDb, .error e⟩ : (o : Op) × Except Exn (Res o)) ∈ c.thread.history

/-- The requests that held a connection are where they were. -/
def Kept (cs cs' : List Holder) : Prop :=
  ∀ (i : ℕ) (c : Holder), cs[i]? = some c → c.held ≠ [] → cs'[i]? = some c

/-- The requests that held a connection still hold it and wait, unless the commit of
some request has been given up. -/
def Blocked (cs cs' : List Holder) : Prop := Kept cs cs' ∨ ∃ c ∈ cs', CommitFailed c

theorem Kept.inUse_le {cs cs' : List Holder} (h : Kept cs cs') :
    Pool.inUse cs ≤ Pool.inUse cs' := by
  induction cs generalizing cs' with
  | nil => exact Nat.zero_le _
  | cons c cs ih =>
    cases cs' with
    | nil =>
      have hkept : Kept cs [] := by
        intro i d hi hheld
        simpa using h (i + 1) d (by simpa using hi) hheld
      have hrest := ih hkept
      have hfirst : c.held = [] := by
        by_contra hheld
        simpa using h 0 c rfl hheld
      show c.held.length + Pool.inUse cs ≤ _
      rw [hfirst]
      simpa using hrest
    | cons c' cs' =>
      have hrest := ih fun i d hi hheld => h (i + 1) d hi hheld
      have hfirst : c.held.length ≤ c'.held.length := by
        by_cases hheld : c.held = []
        · rw [hheld]
          exact Nat.zero_le _
        · rw [Option.some.inj (h 0 c rfl hheld)]
      show c.held.length + Pool.inUse cs ≤ c'.held.length + Pool.inUse cs'
      omega

/-- From a stuck state on, requests are held up until the commit of one is given
up. -/
theorem Blocked.step {cs : List Holder} (hfull : capacity ≤ Pool.inUse cs)
    (hwaits : ∀ c ∈ cs, c.held ≠ [] → WaitsToRecord c) {x y : Shared × List Holder}
    (h : Blocked cs x.2) (hstep : Pool.Step (searchSystem decode intOf) (engine capacity) x y) :
    Blocked cs y.2 := by
  -- replacing a request that is not held up, or one with a longer history
  have hreplace : ∀ (cs' : List Holder) (i : ℕ) (c c' : Holder), cs'[i]? = some c →
      Blocked cs cs' → c.thread.history ⊆ c'.thread.history →
      (Kept cs cs' → cs[i]? = some c → c.held ≠ [] → CommitFailed c') →
      Blocked cs (cs'.set i c') := by
    intro cs' i c c' hi hblocked hhistory hfailed
    have hlt := (List.getElem?_eq_some_iff.mp hi).1
    rcases hblocked with hkept | ⟨d, hd, e, he⟩
    · by_cases hin : ∃ d, cs[i]? = some d ∧ d.held ≠ []
      · obtain ⟨d, hd, hheld⟩ := hin
        have heq := hkept i d hd hheld
        rw [hi] at heq
        obtain rfl := Option.some.inj heq
        exact Or.inr ⟨c', List.mem_set hlt _, hfailed hkept hd hheld⟩
      · left
        intro j d hj hheld
        have hij : i ≠ j := by
          rintro rfl
          exact hin ⟨d, hj, hheld⟩
        rw [List.getElem?_set_ne hij]
        exact hkept j d hj hheld
    · right
      obtain ⟨j, hj⟩ := List.mem_iff_getElem?.mp hd
      by_cases hij : i = j
      · subst hij
        rw [hi] at hj
        obtain rfl := Option.some.inj hj
        exact ⟨c', List.mem_set hlt _, e, hhistory he⟩
      · refine ⟨d, ?_, e, he⟩
        rw [List.mem_iff_getElem?]
        exact ⟨j, by rwa [List.getElem?_set_ne hij]⟩
  cases hstep with
  | @move _ _ i hmove =>
    cases hmove with
    | @checkout _ cs' c x hi hw hfree =>
      refine hreplace cs' i c _ hi h (List.Subset.refl _) ?_
      -- no connection is free while all that were out still are
      intro hkept
      exact absurd hfree (Nat.not_lt.mpr (hfull.trans hkept.inUse_le))
    | @exec _ _ cs' t l l' hist o k r held held' hi hready hexec hkeeps =>
      refine hreplace cs' i _ _ hi h (List.subset_append_left _ _) ?_
      intro _ hin hheld
      rw [(hwaits _ (List.mem_of_getElem? hin) hheld).waitsFor] at hready
      cases hready
    | @close _ cs' c hi hended hheld =>
      refine hreplace cs' i c _ hi h (List.Subset.refl _) ?_
      intro _ hin hheld
      obtain ⟨-, -, k, hprog⟩ := hwaits _ (List.mem_of_getElem? hin) hheld
      rw [hprog] at hended
      cases hended
  | spawn r s cs' =>
    rcases h with hkept | ⟨d, hd, hfailed⟩
    · left
      intro i c hi hheld
      have hkept := hkept i c hi hheld
      rwa [List.getElem?_append_left (List.getElem?_eq_some_iff.mp hkept).1]
    · exact Or.inr ⟨d, List.mem_append_left _ hd, hfailed⟩
  | drift => exact h
  | @expire _ _ cs' i t l l' hist o k held x hi hw hexec =>
    refine hreplace cs' i _ _ hi h (List.subset_append_left _ _) ?_
    intro _ hin hheld
    obtain ⟨-, -, k', hprog⟩ := hwaits _ (List.mem_of_getElem? hin) hheld
    cases hprog
    exact ⟨_, List.mem_append_right _ (List.mem_singleton_self _)⟩

/-- What the commits of a request have answered. -/
def commitsNext (g : List (Except Exn Unit)) :
    (o : Op) → Except Exn (Res o) → List (Except Exn Unit)
  | .commit _, r => g ++ [r]
  | _, _ => g

theorem mem_commits_iff {h : List ((o : Op) × Except Exn (Res o))} {x : Except Exn Unit} :
    x ∈ System.ledger commitsNext [] h ↔
      ∃ c, (⟨.commit c, x⟩ : (o : Op) × Except Exn (Res o)) ∈ h := by
  induction h using List.reverseRecOn with
  | nil => simp [System.ledger]
  | append_singleton h e ih =>
    obtain ⟨o, r⟩ := e
    rw [ledger_append_singleton]
    cases o with
    | commit c =>
      show x ∈ System.ledger commitsNext [] h ++ [r] ↔ _
      rw [List.mem_append, ih, List.mem_singleton]
      constructor
      · rintro (⟨d, hd⟩ | rfl)
        · exact ⟨d, List.mem_append_left _ hd⟩
        · exact ⟨c, List.mem_append_right _ (List.mem_singleton_self _)⟩
      · rintro ⟨d, hd⟩
        rcases List.mem_append.mp hd with hd | hd
        · exact Or.inl ⟨d, hd⟩
        · rw [List.mem_singleton] at hd
          cases hd
          exact Or.inr rfl
    | _ =>
      show x ∈ System.ledger commitsNext [] h ↔ _
      simp [ih]

/-- Rows are committed by a commit that answered. -/
theorem exists_commit_of_committed {h : List ((o : Op) × Except Exn (Res o))}
    {rows : List SearchAuditLog}
    (hcommitted : (System.ledger Ledger.next {} h).committed = some rows) :
    ∃ c, (⟨.commit c, .ok ()⟩ : (o : Op) × Except Exn (Res o)) ∈ h := by
  induction h using List.reverseRecOn generalizing rows with
  | nil => cases hcommitted
  | append_singleton h e ih =>
    obtain ⟨o, r⟩ := e
    rw [ledger_append_singleton] at hcommitted
    have hbefore : (System.ledger Ledger.next {} h).committed = some rows →
        ∃ c, (⟨.commit c, .ok ()⟩ : (o : Op) × Except Exn (Res o)) ∈ h ++ [⟨o, r⟩] := by
      intro hsome
      obtain ⟨c, hc⟩ := ih hsome
      exact ⟨c, List.mem_append_left _ hc⟩
    cases o with
    | commit c =>
      cases r with
      | ok a => exact ⟨c, List.mem_append_right _ (List.mem_singleton_self _)⟩
      | error e => cases c <;> exact hbefore hcommitted
    | addAll c rows => cases c <;> cases r <;> exact hbefore hcommitted
    | rollback c => cases c <;> cases r <;> exact hbefore hcommitted
    | counterAdd amount => cases r <;> exact hbefore hcommitted
    | _ => exact hbefore hcommitted

/-- What is done about a failed write does not commit again. -/
theorem calls_writeFailed_ne (session : Conn) :
    (writeFailed session).Calls fun o => ∀ c, o ≠ .commit c := by
  have hlog : ∀ message, (logException message).Calls fun o => ∀ c, o ≠ .commit c :=
    fun message => calls_logException (by simp)
  apply Prog.calls_bind (hlog _)
  intro _
  apply Prog.calls_bind
  · exact Prog.calls_handle (Prog.calls_perform (by simp)) fun _ => hlog _
  · intro _
    exact Prog.calls_handle (Prog.calls_perform (by simp)) fun _ => hlog _

theorem commitsNext_of_ne (g : List (Except Exn Unit)) (o : Op) (r : Except Exn (Res o))
    (ho : ∀ c, o ≠ .commit c) : commitsNext g o r = g := by
  cases o with
  | commit c => exact absurd rfl (ho c)
  | _ => rfl

/-- The writer commits once at most. -/
theorem obeys_write_commits (rows : List SearchAuditLog) :
    (write .getAuditDb rows).Obeys Op.MayAnswer commitsNext (fun _ _ => True)
      (fun g r => r = .ok () ∧ g.length ≤ 1) [] := by
  have hfailed : ∀ g : List (Except Exn Unit), g.length ≤ 1 →
      (writeFailed .getAuditDb).Obeys Op.MayAnswer commitsNext (fun _ _ => True)
        (fun g r => r = .ok () ∧ g.length ≤ 1) g := by
    intro g hg
    refine (Prog.obeys_of_calls (commitsNext_of_ne g) (fun _ _ => trivial)
      (calls_writeFailed_ne _) (ends_writeFailed _)).mono ?_
    rintro g' r ⟨rfl, hr⟩
    exact ⟨hr, hg⟩
  apply Prog.obeys_handle
  apply Prog.obeys_bind
  refine Prog.obeys_perform (J := fun _ _ => True) trivial ?_
  intro r _
  cases r with
  | error e => exact hfailed [] (Nat.zero_le 1)
  | ok a =>
    refine Prog.obeys_perform (J := fun _ _ => True) trivial ?_
    intro r _
    cases r with
    | error e => exact hfailed [.error e] le_rfl
    | ok a => exact ⟨rfl, le_rfl⟩

/-- A request commits once at most, and is answered if it does. -/
theorem obeys_commits (r : HttpRequest) :
    (search decode intOf r).Obeys Op.MayAnswer commitsNext (fun _ _ => True)
      (fun g result => g.length ≤ 1 ∧ (g ≠ [] → answered result = true)) [] := by
  rcases search_cases decode intOf r with
    ⟨e, hraise⟩ | ⟨body, context, request, -, -, -, hsearch⟩
  · rw [hraise]
    exact ⟨Nat.zero_le 1, fun h => absurd rfl h⟩
  · rw [hsearch]
    unfold runSearch
    split
    · refine Prog.obeys_bind ((obeys_write_commits _).mono ?_)
      rintro g r ⟨rfl, hg⟩
      exact ⟨hg, fun _ => rfl⟩
    · have hreads : ∀ o r, o.Reads .getDb → commitsNext [] o r = [] := by
        intro o r ho
        cases o with
        | commit c => exact ho.elim
        | _ => rfl
      refine Prog.obeys_bind ((Prog.obeys_of_calls hreads (fun _ _ => trivial)
        (calls_searchLoop _ _ _ _ _ _) (Prog.ends_of_forall (Q := fun _ => True)
          (fun _ => trivial) _)).mono ?_)
      rintro g r ⟨rfl, -⟩
      cases r with
      | error e => exact ⟨Nat.zero_le 1, fun h => absurd rfl h⟩
      | ok found =>
        refine Prog.obeys_bind ((obeys_write_commits _).mono ?_)
        rintro g r ⟨rfl, hg⟩
        exact ⟨hg, fun _ => rfl⟩

/-- The losses noted are what the requests noted. -/
theorem Trail.losses_eq {before after : Shared} {ts : List Request}
    {batches : List (ℕ × List AuditRow)} (h : Trail before after ts batches) :
    after.losses = before.losses +
      (ts.map fun th => th.ledger.counted + th.ledger.logged.count metricIncrementFailed).sum := by
  have hcounted := h.counted
  have hlogged := h.logged metricIncrementFailed
  simp only [List.sum_map_add, Shared.losses]
  omega

/-- Once all requests of a stuck state have ended, the commit of one has been given
up. -/
theorem exists_commitFailed {before : Shared} {x y : Shared × List Holder}
    (hr : Pool.Reach (searchSystem decode intOf) (engine capacity) (before, []) x)
    (hcapacity : 1 ≤ capacity)
    (hstuck : Pool.Stuck (searchSystem decode intOf) (engine capacity) x)
    (hopen : ∃ c ∈ x.2, Pool.finished c = false)
    (hr' : Pool.Reach (searchSystem decode intOf) (engine capacity) x y)
    (hended : ∀ c ∈ y.2, c.thread.prog.result.isSome) : ∃ c ∈ y.2, CommitFailed c := by
  obtain ⟨hcases, hfull⟩ := Pool.cases_of_stuck exists_exec exists_keeps hstuck
  have hwaits := waitsToRecord_of_stuck hr hstuck
  have hcapacity' : capacity ≤ Pool.inUse x.2 := by
    obtain ⟨c, hc, hnot⟩ := hopen
    refine hfull ⟨c, hc, (hcases c hc).resolve_left ?_⟩
    rw [hnot]
    exact Bool.false_ne_true
  have hblocked : Blocked x.2 y.2 := by
    clear hended
    induction hr' with
    | refl => exact Or.inl fun i c hi _ => hi
    | tail _ hstep ih => exact ih.step hcapacity' hwaits hstep
  rcases hblocked with hkept | hfailed
  · -- a request that still waits has not ended
    have hpos : 0 < Pool.inUse x.2 := by omega
    obtain ⟨n, hn, hn0⟩ := List.exists_mem_ne_zero_of_sum_ne_zero (Nat.pos_iff_ne_zero.mp hpos)
    obtain ⟨c, hc, rfl⟩ := List.mem_map.mp hn
    have hheld : c.held ≠ [] := List.ne_nil_of_length_pos (Nat.pos_iff_ne_zero.mpr hn0)
    obtain ⟨i, hi⟩ := List.mem_iff_getElem?.mp hc
    obtain ⟨-, -, k, hprog⟩ := hwaits c hc hheld
    have hsome := hended c (List.mem_of_getElem? (hkept i c hi hheld))
    rw [hprog] at hsome
    cases hsome
  · exact hfailed

/-- A request that has ended after its commit was given up has noted its loss. -/
theorem noted_of_commitFailed {before after : Shared} {ts : List Request}
    (hr : (searchSystem decode intOf).Reach (before, []) (after, ts)) {th : Request} (hth : th ∈ ts)
    (hended : th.prog.result.isSome) {e : Exn}
    (he : (⟨.commit .getAuditDb, .error e⟩ : (o : Op) × Except Exn (Res o)) ∈ th.history) :
    th.ledger.counted + th.ledger.logged.count metricIncrementFailed = 1 := by
  obtain ⟨result, hresult⟩ := Option.isSome_iff_exists.mp hended
  obtain ⟨hlen, hanswered⟩ := (obeys_of_reach (M := searchSystem decode intOf) obeys_commits
    mayAnswer_exec hr _ hth).of_result hresult
  have hbooks : RequestEnd decode intOf th.tag th.ledger result :=
    (obeys_of_reach (M := searchSystem decode intOf) obeys_search mayAnswer_exec hr _
      hth).of_result hresult
  have herror : .error e ∈ System.ledger commitsNext [] th.history := mem_commits_iff.mpr ⟨_, he⟩
  rcases hbooks with ⟨-, rows, -, hsettled | ⟨-, -, hnoted⟩⟩ | ⟨hnot, -⟩
  · -- committed rows would be those of a second commit
    obtain ⟨d, hd⟩ := exists_commit_of_committed (congrArg Ledger.committed hsettled)
    have hok : .ok () ∈ System.ledger commitsNext [] th.history := mem_commits_iff.mpr ⟨d, hd⟩
    generalize System.ledger commitsNext [] th.history = commits at hlen herror hok
    cases commits with
    | nil => cases hok
    | cons r commits =>
      obtain rfl : commits = [] := List.eq_nil_of_length_eq_zero (by simpa using hlen)
      rw [List.mem_singleton] at herror hok
      rw [← herror] at hok
      cases hok
  · exact hnoted
  · rw [hanswered (List.ne_nil_of_mem herror)] at hnot
    cases hnot

/-- **The way out costs audit rows.**  Once requests have come to hold up each other,
however they go on and whatever else happens: when all have ended, more audit batches
have been lost than before the run, though the database itself may not have failed at
all. -/
theorem losses_lt_of_stuck {before : Shared} {x y : Shared × List Holder}
    (hr : Pool.Reach (searchSystem decode intOf) (engine capacity) (before, []) x)
    (hcapacity : 1 ≤ capacity)
    (hstuck : Pool.Stuck (searchSystem decode intOf) (engine capacity) x)
    (hopen : ∃ c ∈ x.2, Pool.finished c = false)
    (hr' : Pool.Reach (searchSystem decode intOf) (engine capacity) x y)
    (hended : ∀ c ∈ y.2, c.thread.prog.result.isSome) : before.losses < y.1.losses := by
  obtain ⟨c, hc, e, he⟩ := exists_commitFailed hr hcapacity hstuck hopen hr' hended
  have hreach := Pool.reach_threads (hr.trans hr')
  have hmem : c.thread ∈ y.2.map Client.thread := List.mem_map_of_mem hc
  obtain ⟨batches, htrail⟩ := trail_of_reach hreach
  have hle : 1 ≤ ((y.2.map Client.thread).map fun th : Request =>
      th.ledger.counted + th.ledger.logged.count metricIncrementFailed).sum := by
    rw [← noted_of_commitFailed hreach hmem (hended c hc) he]
    exact List.single_le_sum (fun _ _ => Nat.zero_le _) _ (List.mem_map_of_mem hmem)
  have hlosses : y.1.losses = before.losses + _ := htrail.losses_eq
  omega

theorem losses_lt_of_stuck_small :
    let M := searchSystem (fun _ => .ok .small) intOfInt
    ∃ x y : Shared × List Holder, Pool.Reach M (engine 1) ({ database := .small }, []) x ∧
      Pool.Stuck M (engine 1) x ∧ Pool.Reach M (engine 1) x y ∧
        ({ database := .small } : Shared).losses < y.1.losses := by
  intro M
  obtain ⟨response, hresponse⟩ := exists_runOn_small
  obtain ⟨cs, hreach, hlen, hall⟩ := exists_waitsToRecord (s := { database := .small })
    hresponse 1 le_rfl
  have hstuck : Pool.Stuck M (engine 1) ({ database := .small }, cs) :=
    stuck_of_waitsToRecord hall hlen.ge
  -- the wait is given up, and the request ends
  have hexpire : ∀ (s : Shared) (l : Sessions) (o : Op) (x : Conn), o.needs l = some x →
      ∃ s' l', M.exec s l o (.error (engine 1).timeout) s' l' := by
    intro s l o x hneeds
    refine ⟨s, l, some (.other "TimeoutError"), by simp [Exn.Internal], ?_⟩
    cases o with
    | logException message => cases hneeds
    | _ => rfl
  obtain ⟨s', cs', hreach', hended⟩ := Pool.exists_reach_ended (M := M) (P := engine 1) exists_exec
    exists_keeps hexpire (fun c hc => ⟨10, within_of_reach hreach c hc⟩)
  obtain ⟨c, hc⟩ := List.exists_mem_of_length_pos (by omega : 0 < cs.length)
  have hopen : Pool.finished c = false := by
    obtain ⟨-, -, k, hprog⟩ := hall c hc
    rw [Pool.finished, hprog]
    rfl
  exact ⟨_, _, hreach, hstuck, hreach',
    losses_lt_of_stuck hreach le_rfl hstuck ⟨c, hc, hopen⟩ hreach' hended⟩

end Runs

end SnapSearch
