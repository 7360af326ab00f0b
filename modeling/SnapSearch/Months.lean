import SnapSearch.Service

/-!
# The months of the analytics section

The analytics section counts the matching reports by month.  A month is a text made
by the database, in the time zone of its session; the texts are grouped, sorted as
texts, and their counts are added up again in Python.

## Main definitions

* `LocalTime.InEra`, `LocalTime.MonthBefore` — the years that four digits write, and
  the order of months.
* `MatchesContent` — whether a report's content matches a query.
* `AnalyticsSection.Partitions` — a section that partitions reports by month.
* `CountsByUtcMonth` — a search that counts reports under the month of their instant.
* `ZoneIndependent` — a section that is the same in two time zones.

## Main results

* `toCharMonth_lt_iff` — **labels are ordered as their months are.**
* `analyticsSearch_partitions` — **the section partitions the matching reports by
  month**, and depends on nothing else.
* `countOf_analyticsFound` — the section counts the matching reports of a label.
* `zoneIndependent_iff` — **the time zone of the session moves** every report whose
  local month is not that of its instant.
-/

namespace SnapSearch

open PyStr

/-! ### Labels -/

namespace LocalTime

variable (t t' : LocalTime)

/-- The years that four digits write. -/
def InEra : Prop := 1 ≤ t.year ∧ t.year ≤ 9999

/-- An earlier month of the calendar. -/
def MonthBefore : Prop := t.year < t'.year ∨ t.year = t'.year ∧ t.month < t'.month

/-- The year as a label shows it: years before our era by their absolute value. -/
def shownYear : ℤ := if t.year ≤ 0 then 1 - t.year else t.year

/-- The month is one of the calendar's. -/
def HasMonth : Prop := 1 ≤ t.month ∧ t.month ≤ 12

end LocalTime

theorem TimeZone.hasMonth_localTime (tz : TimeZone) (t : Timestamp) :
    (tz.localTime t).HasMonth := civilOfDays_month _

theorem toList_toCharMonth (t : LocalTime) :
    (toCharMonth t).toList = zeroPad 4 t.shownYear.toNat ++ '-' :: zeroPad 2 t.month.toNat :=
  String.toList_ofList

theorem toCharMonth_dateTruncMonth (t : LocalTime) :
    toCharMonth (dateTruncMonth t) = toCharMonth t := rfl

/-- **Labels are ordered as their months are**, as long as four digits write the
year. -/
theorem toCharMonth_lt_iff {t t' : LocalTime} (ht : t.InEra) (ht' : t'.InEra)
    (hmonth : t.HasMonth) (hmonth' : t'.HasMonth) :
    toCharMonth t < toCharMonth t' ↔ t.MonthBefore t' := by
  obtain ⟨h1, h2⟩ := ht
  obtain ⟨h3, h4⟩ := ht'
  obtain ⟨h5, h6⟩ := hmonth
  obtain ⟨h7, h8⟩ := hmonth'
  have hyear : t.shownYear = t.year := if_neg (by omega)
  have hyear' : t'.shownYear = t'.year := if_neg (by omega)
  -- both years take four digits, so the labels are compared part by part
  have hlength : (zeroPad 4 t.year.toNat).length = (zeroPad 4 t'.year.toNat).length := by
    rw [length_zeroPad (by omega), length_zeroPad (by omega)]
  rw [String.lt_iff_toList_lt, toList_toCharMonth, toList_toCharMonth, hyear, hyear',
    append_lt_append_iff hlength, (zeroPad_injective 4).eq_iff, List.cons_lt_cons_iff,
    zeroPad_lt_iff (by omega) (by omega), zeroPad_lt_iff (by omega) (by omega),
    LocalTime.MonthBefore]
  simp only [lt_irrefl, true_and, false_or]
  omega

/-- **A label tells the month and the year as it is shown.** -/
theorem toCharMonth_eq_iff {t t' : LocalTime} (hmonth : t.HasMonth) (hmonth' : t'.HasMonth) :
    toCharMonth t = toCharMonth t' ↔ t.shownYear = t'.shownYear ∧ t.month = t'.month := by
  obtain ⟨h5, h6⟩ := hmonth
  obtain ⟨h7, h8⟩ := hmonth'
  have hshown : ∀ t : LocalTime, 0 < t.shownYear := by
    intro t
    unfold LocalTime.shownYear
    split <;> omega
  have hdash : ∀ n, '-' ∉ zeroPad 4 n := by
    intro n h
    exact absurd (isDigit_of_mem_zeroPad h) (by decide)
  rw [← String.toList_inj, toList_toCharMonth, toList_toCharMonth]
  constructor
  · intro h
    -- the dash is the first, so the parts are the same
    have hparts := congrArg (partition '-') h
    rw [partition_append_cons (hdash _), partition_append_cons (hdash _)] at hparts
    simp only [Prod.mk.injEq, (zeroPad_injective _).eq_iff] at hparts
    have := hshown t
    have := hshown t'
    omega
  · intro hsame
    obtain ⟨hyear, hmonth⟩ := hsame
    rw [hyear, hmonth]

/-! ### The partition -/

/-- A report's content contains the query, up to the case of the letters. -/
def MatchesContent (srv : Server) (query : String) (r : AnalyticsReport) : Prop :=
  query.toList.map srv.caseFold.fold <:+: r.content.toList.map srv.caseFold.fold

instance (srv : Server) (query : String) (r : AnalyticsReport) :
    Decidable (MatchesContent srv query r) := inferInstanceAs (Decidable (_ <:+: _))

/-- The section partitions the reports by month: a key for each label that some
report has, mapped to the number of reports that have it, in the order of the
calendar. -/
structure AnalyticsSection.Partitions (s : AnalyticsSection) (srv : Server)
    (reports : List AnalyticsReport) : Prop where
  total : s.totalMatched = reports.length
  sum : (s.byMonth.map Prod.snd).sum = s.totalMatched
  nodup : (s.byMonth.map Prod.fst).Nodup
  keys : ∀ label, label ∈ s.byMonth.map Prod.fst ↔
    ∃ r ∈ reports, srv.monthLabel r.createdAt = label
  counts : ∀ label count, (label, count) ∈ s.byMonth →
    1 ≤ count ∧ count = reports.countP fun r => srv.monthLabel r.createdAt = label
  chronological : s.byMonth.Pairwise fun x y => ∀ a ∈ reports, ∀ b ∈ reports,
    srv.monthLabel a.createdAt = x.1 → srv.monthLabel b.createdAt = y.1 →
    (srv.timeZone.localTime a.createdAt).InEra → (srv.timeZone.localTime b.createdAt).InEra →
    (srv.timeZone.localTime a.createdAt).MonthBefore (srv.timeZone.localTime b.createdAt)

/-- The matching reports are those whose content contains the query. -/
theorem analyticsMatching_eq (db : Database) (query : String) :
    analyticsMatching db query
      = db.analyticsReports.rows.filter fun r => MatchesContent db.server query r := by
  apply List.filter_congr
  intro r _
  rw [Bool.eq_iff_iff, decide_eq_true_eq, MatchesContent,
    ← Condition.holds_ilike_likePattern AnalyticsReport.content query r]
  simp [analyticsStmt, Condition.holdsAll]

/-- Grouped labels, as a dictionary, are the section of a partition. -/
theorem partitions_analyticsSectionOf (srv : Server) (reports : List AnalyticsReport) :
    (analyticsSectionOf
      (groupCount (reports.map fun r => srv.monthLabel r.createdAt))).1.Partitions srv reports := by
  rw [analyticsSectionOf, dictOf_of_nodup (nodup_groupCount _)]
  refine ⟨?_, rfl, nodup_groupCount _, ?_, ?_, ?_⟩
  · rw [sum_groupCount, List.length_map]
  · intro label
    simp only [List.mem_map, Prod.exists, mem_groupCount]
    constructor
    · rintro ⟨label, count, ⟨⟨r, hr, rfl⟩, -⟩, rfl⟩
      exact ⟨r, hr, rfl⟩
    · rintro ⟨r, hr, rfl⟩
      exact ⟨_, _, ⟨⟨r, hr, rfl⟩, rfl⟩, rfl⟩
  · intro label count h
    obtain ⟨hmem, rfl⟩ := mem_groupCount.mp h
    refine ⟨List.one_le_count_iff.mpr hmem, ?_⟩
    rw [List.count, List.countP_map]
    apply List.countP_congr
    intro r _
    simp
  · refine (pairwise_groupCount _).imp ?_
    intro x y hlt a _ b _ ha hb hera hera'
    rw [← ha, ← hb] at hlt
    rw [Server.monthLabel, Server.monthLabel, toCharMonth_dateTruncMonth,
      toCharMonth_dateTruncMonth] at hlt
    exact (toCharMonth_lt_iff hera hera' (srv.timeZone.hasMonth_localTime _)
      (srv.timeZone.hasMonth_localTime _)).mp hlt

section Runs

variable {db : Database} {query : String}

theorem runOn_analyticsSearch (db : Database) (session : Conn) (query userId : String) (limit : ℕ) :
    (analyticsSearch session query userId none limit).runOn db = analyticsOf db query := by
  simp only [Py.runOn, run_analyticsSearch, noFaults]

/-- What is found depends on when the matching reports were created only. -/
theorem analyticsFound_congr {db' : Database} (hserver : db'.server = db.server)
    (hperm : ((analyticsMatching db' query).map AnalyticsReport.createdAt).Perm
      ((analyticsMatching db query).map AnalyticsReport.createdAt)) :
    analyticsFound db' query = analyticsFound db query := by
  have hlabels := hperm.map db.server.monthLabel
  rw [List.map_map, List.map_map] at hlabels
  unfold analyticsFound
  rw [hserver]
  exact congrArg analyticsSectionOf (groupCount_perm hlabels)

/-- The total is handed on as the count. -/
theorem analyticsFound_eq (db : Database) (query : String) :
    analyticsFound db query
      = ((analyticsFound db query).1, (analyticsFound db query).1.totalMatched) := rfl

/-- What a search returns for the analytics app. -/
theorem lookup_of_searchOutcome {context : AuthContext} {request : SearchRequest}
    {response : SearchResponse} (hquery : request.query = query)
    (happs : "analytics" ∈ context.searchApps)
    (h : (searchOutcome noFaults db context request).1 = .ok response) :
    (response.results.map Prod.fst).Nodup ∧
      response.results.lookup "analytics" = some (.analytics (analyticsFound db query).1) := by
  rw [searchOutcome, if_neg (List.ne_nil_of_mem happs)] at h
  cases hc : collect noFaults db request context.userId context.searchApps with
  | error e =>
    rw [hc] at h
    cases h
  | ok found =>
    rw [hc] at h
    cases h
    have hnodup := nodup_sectionsOf hc
    refine ⟨hnodup, ?_⟩
    rw [← map_fst_of_collect hc, List.mem_map] at happs
    obtain ⟨f, hf, hname⟩ := happs
    have hmem : ("analytics", f.2.1) ∈ sectionsOf found := by
      rw [← hname]
      exact List.mem_map_of_mem hf
    rw [lookup_eq_some_of_mem hnodup hmem]
    -- what was collected for the app is what its strategy finds
    obtain ⟨s, hs, hresult⟩ := result_of_mem_collect hc f hf
    obtain rfl : s = .analytics := Strategy.appName_injective (hs.symm.trans hname)
    have hstorable := (Strategy.of_result_eq_ok hresult).1.1
    rw [request.cursorFor_analytics, hquery] at hresult
    rw [hquery] at hstorable
    have hof := (analyticsOf_eq_ok_iff db).mpr ⟨hstorable, rfl⟩
    simp only [Strategy.result, noFaults, hof] at hresult
    rw [← Except.ok.inj hresult]

/-- What a search returns for the analytics app, and what it hands to the audit
trail. -/
theorem of_runSearch_analytics {context : AuthContext} {request : SearchRequest}
    {response : SearchResponse} {shared : Shared} (hquery : request.query = query)
    (happs : "analytics" ∈ context.searchApps)
    (h : ((runSearch context request .getDb .getAuditDb).runWith noFaults (shared, {})).1
      = .ok response) :
    let s := (analyticsFound shared.database query).1
    response.results.lookup "analytics" = some (.analytics s) ∧
      (∃ w₁, (w₁ = (shared, {}) ∨ w₁ = World.begin (shared, {}) .getDb) ∧
        ((runSearch context request .getDb .getAuditDb).runWith noFaults (shared, {})).2
          = ((write .getAuditDb (okBatch context response)).runWith noFaults w₁).2) ∧
      (∃ row ∈ okBatch context response, row.app = some "analytics") ∧
      ∀ row ∈ okBatch context response, row.app = some "analytics" →
        row.resultsCount = some s.totalMatched := by
  intro s
  obtain ⟨w₁, hw₁, hrun⟩ := run_runSearch noFaults (shared, {}) context request
  rw [hrun] at h ⊢
  obtain ⟨hnodup, hlookup⟩ := lookup_of_searchOutcome hquery happs h
  refine ⟨hlookup, ⟨w₁, hw₁, ?_⟩, ?_, ?_⟩
  · -- the rows handed to the writer are those of the response
    rw [searchOutcome, if_neg (List.ne_nil_of_mem happs)] at h ⊢
    cases hc : collect noFaults shared.database request context.userId context.searchApps with
    | error e =>
      simp only [hc] at h
      cases h
    | ok found =>
      simp only [hc] at h ⊢
      cases h
      rw [← okRows_eq_okBatch (tallied_of_collect (by simp [noFaults]) hc)]
  · exact ⟨_, List.mem_map_of_mem (mem_of_lookup_eq_some hlookup), rfl⟩
  · intro row hrow happ
    obtain ⟨⟨app, section_⟩, hitem, rfl⟩ := List.mem_map.mp hrow
    obtain rfl : app = "analytics" := Option.some.inj happ
    rw [lookup_eq_some_of_mem hnodup hitem] at hlookup
    obtain rfl : section_ = .analytics s := Option.some.inj hlookup
    rfl

/-- **The section partitions the matching reports by month.**  A query that can be
sent has one section: it is what every search for it returns, with its total as the
count, on every database with the same settings and matching reports that were
created at the same times; and it is what a user's search returns, with one row of
its total handed to the audit trail. -/
theorem analyticsSearch_partitions (db : Database) (query : String) :
    (¬Storable query → ∀ session userId limit,
      (analyticsSearch session query userId none limit).runOn db =
        .error (.dataError "PostgreSQL text fields cannot contain NUL (0x00) bytes")) ∧
    (Storable query → ∃ s : AnalyticsSection,
      s.Partitions db.server
        (db.analyticsReports.rows.filter fun r => MatchesContent db.server query r) ∧
      (∀ db' : Database, db'.server = db.server →
        ((db'.analyticsReports.rows.filter fun r => MatchesContent db'.server query r).map
          AnalyticsReport.createdAt).Perm
        ((db.analyticsReports.rows.filter fun r => MatchesContent db.server query r).map
          AnalyticsReport.createdAt) →
        ∀ session userId limit,
          (analyticsSearch session query userId none limit).runOn db'
            = .ok (s, s.totalMatched)) ∧
      ∀ (context : AuthContext) (request : SearchRequest) (shared : Shared)
        (response : SearchResponse), request.query = query →
        "analytics" ∈ context.searchApps → shared.database = db →
        ((runSearch context request .getDb .getAuditDb).runWith noFaults (shared, {})).1
          = .ok response →
        response.results.lookup "analytics" = some (.analytics s) ∧
        (∃ w₁, (w₁ = (shared, {}) ∨ w₁ = World.begin (shared, {}) .getDb) ∧
          ((runSearch context request .getDb .getAuditDb).runWith noFaults (shared, {})).2
            = ((write .getAuditDb (okBatch context response)).runWith noFaults w₁).2) ∧
        (∃ row ∈ okBatch context response, row.app = some "analytics") ∧
        ∀ row ∈ okBatch context response, row.app = some "analytics" →
          row.resultsCount = some s.totalMatched) := by
  refine ⟨?_, ?_⟩
  · intro hquery session userId limit
    rw [runOn_analyticsSearch, analyticsOf]
    simp [analyticsStmt, Condition.checkAll_cons, Condition.check_ilike_likePattern, hquery,
      Except.map]
  · intro hquery
    refine ⟨(analyticsFound db query).1, ?_, ?_, ?_⟩
    · rw [← analyticsMatching_eq]
      exact partitions_analyticsSectionOf db.server (analyticsMatching db query)
    · intro db' hserver hperm session userId limit
      rw [← analyticsMatching_eq, ← analyticsMatching_eq] at hperm
      rw [runOn_analyticsSearch, (analyticsOf_eq_ok_iff db').mpr ⟨hquery, rfl⟩,
        analyticsFound_congr hserver hperm, analyticsFound_eq]
    · rintro context request shared response hrequest happs rfl h
      exact of_runSearch_analytics hrequest happs h

end Runs

/-! ### The time zone of the session -/

/-- The time zone in which instants are stored. -/
def TimeZone.utc : TimeZone := ⟨fun _ => 0⟩

/-- The same database, with sessions in another time zone. -/
def Database.inZone (db : Database) (tz : TimeZone) : Database :=
  { db with server := { db.server with timeZone := tz } }

/-- The same month of the same year, as a label shows it. -/
def LocalTime.SameMonth (t t' : LocalTime) : Prop :=
  t.shownYear = t'.shownYear ∧ t.month = t'.month

/-- The label of the month of the instant stored. -/
def utcLabel (t : Timestamp) : String := toCharMonth (TimeZone.utc.localTime t)

/-- What a section counts under a label. -/
def AnalyticsSection.countOf (s : AnalyticsSection) (label : String) : ℕ :=
  (s.byMonth.lookup label).getD 0

/-- The same database, without a report. -/
def Database.withoutReport (db : Database) (r : AnalyticsReport) : Database :=
  { db with analyticsReports := ⟨db.analyticsReports.rows.erase r,
      db.analyticsReports.nodup.sublist ((List.erase_sublist).map _)⟩ }

/-- A search returns each matching report counted under the month of the instant
stored: the section has as many under a label as there are such reports, and without
a report one less under the label of that report. -/
def CountsByUtcMonth (db : Database) (query : String) : Prop :=
  ∀ session userId limit found,
    (analyticsSearch session query userId none limit).runOn db = .ok found →
    (∀ label, found.1.countOf label = db.analyticsReports.rows.countP fun r =>
      MatchesContent db.server query r ∧ utcLabel r.createdAt = label) ∧
    ∀ r ∈ db.analyticsReports.rows, MatchesContent db.server query r → ∀ found',
      (analyticsSearch session query userId none limit).runOn (db.withoutReport r) = .ok found' →
      found.1.countOf (utcLabel r.createdAt) = found'.1.countOf (utcLabel r.createdAt) + 1

/-- What a search returns does not depend on which of two time zones the sessions are
in, and in both a matching report is counted under the month of the instant stored. -/
def ZoneIndependent (db : Database) (query : String) (tz tz' : TimeZone) : Prop :=
  (∀ session userId limit,
    (analyticsSearch session query userId none limit).runOn (db.inZone tz) =
      (analyticsSearch session query userId none limit).runOn (db.inZone tz')) ∧
  CountsByUtcMonth (db.inZone tz) query ∧ CountsByUtcMonth (db.inZone tz') query

theorem monthLabel_inZone_eq_iff (db : Database) (tz : TimeZone) (t : Timestamp) :
    (db.inZone tz).server.monthLabel t = utcLabel t ↔
      (tz.localTime t).SameMonth (TimeZone.utc.localTime t) := by
  unfold Server.monthLabel
  rw [toCharMonth_dateTruncMonth]
  exact toCharMonth_eq_iff (tz.hasMonth_localTime t) (TimeZone.utc.hasMonth_localTime t)

/-- No server refuses a query that another takes. -/
theorem checkAll_analyticsStmt_congr (srv srv' : Server) (query : String) :
    Condition.checkAll srv (analyticsStmt query).conditions
      = Condition.checkAll srv' (analyticsStmt query).conditions := by
  simp only [analyticsStmt, Condition.checkAll_cons, Condition.check_ilike_likePattern,
    Condition.checkAll_nil]

/-- Which reports match does not depend on the time zone. -/
theorem analyticsMatching_inZone (db : Database) (tz : TimeZone) (query : String) :
    analyticsMatching (db.inZone tz) query = analyticsMatching db query := by
  rw [analyticsMatching_eq, analyticsMatching_eq]
  rfl

/-! ### What the section counts -/

/-- The section counts the matching reports of a label. -/
theorem countOf_analyticsFound (db : Database) (query label : String) :
    (analyticsFound db query).1.countOf label =
      (analyticsMatching db query).countP fun r => db.server.monthLabel r.createdAt = label := by
  have hbyMonth : (analyticsFound db query).1.byMonth
      = groupCount ((analyticsMatching db query).map fun r =>
          db.server.monthLabel r.createdAt) := by
    rw [analyticsFound, analyticsSectionOf, dictOf_of_nodup (nodup_groupCount _)]
  have hcount : ((analyticsMatching db query).map fun r =>
      db.server.monthLabel r.createdAt).count label =
      (analyticsMatching db query).countP fun r => db.server.monthLabel r.createdAt = label := by
    rw [List.count, List.countP_map]
    apply List.countP_congr
    intro r _
    simp
  rw [AnalyticsSection.countOf, hbyMonth, ← hcount]
  by_cases hmem : label ∈ (analyticsMatching db query).map fun r =>
      db.server.monthLabel r.createdAt
  · rw [lookup_eq_some_of_mem (nodup_groupCount _) (mem_groupCount.mpr ⟨hmem, rfl⟩),
      Option.getD_some]
  · rw [List.count_eq_zero_of_not_mem hmem]
    cases hlookup : (groupCount ((analyticsMatching db query).map fun r =>
        db.server.monthLabel r.createdAt)).lookup label with
    | none => rfl
    | some count => exact absurd (mem_groupCount.mp (mem_of_lookup_eq_some hlookup)).1 hmem

/-- Without a matching report, the section counts one less under the label of that
report, and as many under any other. -/
theorem countOf_withoutReport {r : AnalyticsReport} (hr : r ∈ analyticsMatching db query)
    (label : String) :
    (analyticsFound db query).1.countOf label =
      (analyticsFound (db.withoutReport r) query).1.countOf label +
        if db.server.monthLabel r.createdAt = label then 1 else 0 := by
  obtain ⟨hmem, hmatches⟩ := List.mem_filter.mp hr
  have hperm : (analyticsMatching db query).Perm
      (r :: analyticsMatching (db.withoutReport r) query) := by
    have hfilter := (List.perm_cons_erase hmem).filter
      (Condition.holdsAll db.server (analyticsStmt query).conditions)
    rwa [List.filter_cons_of_pos hmatches] at hfilter
  rw [countOf_analyticsFound, countOf_analyticsFound, hperm.countP_eq, List.countP_cons]
  simp only [decide_eq_true_eq]
  rfl

/-- **Reports are counted under the month of their instant** just where each has that
month's label. -/
theorem countsByUtcMonth_iff (db : Database) (query : String) :
    CountsByUtcMonth db query ↔ (Storable query → ∀ r ∈ db.analyticsReports.rows,
      MatchesContent db.server query r →
        db.server.monthLabel r.createdAt = utcLabel r.createdAt) := by
  have hmatching : ∀ r, r ∈ analyticsMatching db query ↔
      r ∈ db.analyticsReports.rows ∧ MatchesContent db.server query r := by
    intro r
    rw [analyticsMatching_eq, List.mem_filter, decide_eq_true_eq]
  have hrun : ∀ db : Database, ∀ session userId limit found,
      (analyticsSearch session query userId none limit).runOn db = .ok found ↔
        Storable query ∧ found = analyticsFound db query := by
    intro db session userId limit found
    rw [runOn_analyticsSearch, analyticsOf_eq_ok_iff]
  constructor
  · intro hcounts hquery r hr hmatches
    obtain ⟨-, hless⟩ := hcounts .getDb "" 0 _ ((hrun db _ _ _ _).mpr ⟨hquery, rfl⟩)
    have hone := hless r hr hmatches _ ((hrun _ _ _ _ _).mpr ⟨hquery, rfl⟩)
    rw [countOf_withoutReport ((hmatching r).mpr ⟨hr, hmatches⟩)] at hone
    by_contra hlabel
    rw [if_neg hlabel] at hone
    omega
  · intro hlabels session userId limit found hfound
    obtain ⟨hquery, rfl⟩ := (hrun db _ _ _ _).mp hfound
    refine ⟨?_, ?_⟩
    · intro label
      rw [countOf_analyticsFound, analyticsMatching_eq, List.countP_filter]
      apply List.countP_congr
      intro r hr
      simp only [Bool.and_eq_true, decide_eq_true_eq]
      constructor
      · rintro ⟨hlabel, hmatches⟩
        exact ⟨hmatches, (hlabels hquery r hr hmatches).symm.trans hlabel⟩
      · rintro ⟨hmatches, hlabel⟩
        exact ⟨(hlabels hquery r hr hmatches).trans hlabel, hmatches⟩
    · intro r hr hmatches found' hfound'
      obtain ⟨-, rfl⟩ := (hrun _ _ _ _ _).mp hfound'
      rw [countOf_withoutReport ((hmatching r).mpr ⟨hr, hmatches⟩),
        if_pos (hlabels hquery r hr hmatches)]

/-- **The section is independent of the time zone** just where both zones leave every
matching report in the month of its instant, or where the query has a U+0000 and is
refused. -/
theorem zoneIndependent_iff (db : Database) (query : String) (tz tz' : TimeZone) :
    ZoneIndependent db query tz tz' ↔ (Storable query →
      ∀ r ∈ db.analyticsReports.rows, MatchesContent db.server query r →
        (tz.localTime r.createdAt).SameMonth (TimeZone.utc.localTime r.createdAt) ∧
        (tz'.localTime r.createdAt).SameMonth (TimeZone.utc.localTime r.createdAt)) := by
  -- the labels of a zone are those of UTC just where its months are
  have hzone : ∀ tz : TimeZone, CountsByUtcMonth (db.inZone tz) query ↔ (Storable query →
      ∀ r ∈ db.analyticsReports.rows, MatchesContent db.server query r →
        (tz.localTime r.createdAt).SameMonth (TimeZone.utc.localTime r.createdAt)) := by
    intro tz
    rw [countsByUtcMonth_iff]
    constructor
    · intro hlabels hquery r hr hmatches
      exact (monthLabel_inZone_eq_iff db tz _).mp (hlabels hquery r hr hmatches)
    · intro hmonths hquery r hr hmatches
      exact (monthLabel_inZone_eq_iff db tz _).mpr (hmonths hquery r hr hmatches)
  rw [ZoneIndependent, hzone, hzone]
  constructor
  · rintro ⟨-, hmonths, hmonths'⟩ hquery r hr hmatches
    exact ⟨hmonths hquery r hr hmatches, hmonths' hquery r hr hmatches⟩
  · intro hmonths
    refine ⟨?_, fun hquery r hr hm => (hmonths hquery r hr hm).1,
      fun hquery r hr hm => (hmonths hquery r hr hm).2⟩
    intro session userId limit
    rw [runOn_analyticsSearch, runOn_analyticsSearch, analyticsOf, analyticsOf,
      checkAll_analyticsStmt_congr (db.inZone tz).server (db.inZone tz').server]
    by_cases hquery : Storable query
    · have hlabels : (analyticsMatching db query).map
            (fun r => (db.inZone tz).server.monthLabel r.createdAt)
          = (analyticsMatching db query).map
            (fun r => (db.inZone tz').server.monthLabel r.createdAt) := by
        apply List.map_congr_left
        intro r hr
        rw [analyticsMatching_eq, List.mem_filter, decide_eq_true_eq] at hr
        obtain ⟨htz, htz'⟩ := hmonths hquery r hr.1 hr.2
        rw [(monthLabel_inZone_eq_iff db tz _).mpr htz,
          (monthLabel_inZone_eq_iff db tz' _).mpr htz']
      rw [analyticsFound, analyticsFound, analyticsMatching_inZone, analyticsMatching_inZone,
        hlabels]
    · -- the query is refused in both zones
      cases hcheck : Condition.checkAll (db.inZone tz').server (analyticsStmt query).conditions with
      | error e => simp only [Except.map]
      | ok a => exact absurd ((checkAll_analyticsStmt_eq_ok_iff _).mp hcheck) hquery

/-- A report of the first instant of February in UTC: three hours behind, it is still
January. -/
theorem report_moves_month :
    ¬∀ (db : Database) (query : String) (tz tz' : TimeZone), ZoneIndependent db query tz tz' := by
  intro h
  have hruns := (h .small "an" .utc ⟨fun _ => -10800⟩).1 .getDb "" 50
  rw [runOn_analyticsSearch, runOn_analyticsSearch] at hruns
  exact absurd hruns (by decide)

end SnapSearch
