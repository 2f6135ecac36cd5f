import GradedAccess.Registry

/-!
# The declared permissions

What the services that ask this engine declare, in the order in which it is enrolled.
-/

namespace GradedAccess

namespace Definition

/-- The same declaration with one more attribute. -/
def withAttribute (definition : Definition) (key : String) (kind : AttributeKind)
    (valid : Option AttributeValue) : Definition :=
  { definition with attributes := definition.attributes ++ [⟨key, kind, valid⟩] }

/-- The same declaration with one more attribute that holds strings out of a list. -/
def withStrings (definition : Definition) (key : String) (strings : List String) : Definition :=
  definition.withAttribute key .stringList (some (.strings ⟨strings⟩))

/-- The permissions of all services. -/
def declared : List Definition := [
  ({ category := "citizens.CitizensService", name := "ListCitizens", order := 10 } : Definition)
    |>.withStrings "Fields"
      ["PhoneNumber", "Licenses", "UserProps", "Mugshot", "Fines", "Notes", "Jail"],
  ({ category := "citizens.CitizensService", name := "SetUserProps", order := 11 } : Definition)
    |>.withStrings "Fields" ["Wanted", "Job", "TrafficInfractionPoints", "Mugshot"],
  ({ category := "completor.CompletorService", name := "CompleteJobs", order := 20 } : Definition)
    |>.withAttribute "Jobs" .jobList none,
  { category := "documents.DocumentsService", name := "ListDocuments", order := 30 },
  ({ category := "documents.DocumentsService", name := "ViewDocument", order := 31 } : Definition)
    |>.withStrings "Access" ["Own", "Lower", "Same", "Any"],
  ({ category := "jobs.JobsService", name := "ListColleagues", order := 40 } : Definition)
    |>.withStrings "Types" ["Own", "Lower", "Same", "Any"],
  ({ category := "livemap.LivemapService", name := "Stream", order := 50 } : Definition)
    |>.withAttribute "Markers" .jobList none
    |>.withAttribute "Players" .jobGradeList none,
  ({ category := "qualifications.QualificationsService", name := "ListQualifications",
     order := 60 } : Definition)
    |>.withAttribute "Access" .jobGradeList none,
  { category := "settings.LawsService", name := "CreateOrUpdateLawBook", order := 70 },
  ({ category := "wiki.WikiService", name := "ListPages", order := 80 } : Definition)
    |>.withAttribute "Jobs" .jobList none]

end Definition

/-- The registry of the declared permissions. -/
def Registry.declared : Registry := (Registry.registerAll {} Definition.declared).1

end GradedAccess
