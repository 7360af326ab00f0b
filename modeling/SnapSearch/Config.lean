import SnapSearch.Python

/-!
# Configuration

The constants of `app/config.py` that the search reads.
-/

namespace SnapSearch

/-- The clients of the realm, with the app each stands for, in declaration order. -/
def knownClients : List (String × String) :=
  [("analytics-api", "analytics"),
   ("investigator-api", "investigator"),
   ("case-manager-api", "case-manager")]

/-- The most rows a section holds, and the ceiling of a request's `limit`. -/
def searchResultLimit : ℕ := 50

def queryMinLength : ℕ := 2

def queryMaxLength : ℕ := 200

/-- The app names, in declaration order: `KNOWN_CLIENTS.values()`. -/
def appNames : List String := knownClients.map Prod.snd

theorem nodup_appNames : appNames.Nodup := by decide

/-- No app name contains the separator of a permission. -/
theorem colon_notMem_appName : ∀ app ∈ appNames, ':' ∉ app.toList := by decide

end SnapSearch
