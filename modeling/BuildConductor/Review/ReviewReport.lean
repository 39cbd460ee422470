import BuildConductor.Base.Checks
import BuildConductor.Domain.ArtifactRecords
import BuildConductor.Domain.JsonText
import BuildConductor.Domain.Paths
import BuildConductor.Domain.Runs
import BuildConductor.Storage.EventDocuments

/-!
# Review reports

The report a reviewer prints between two markers, the findings it lists, and the scope test a repair
step makes on them. `src/src/review/review-report.ts`, `src/src/engine/steps/repair.ts:128-153`.
-/

namespace BuildConductor.Review

open Base Domain Storage

/-- The operations of the runtime a report is read with. -/
structure ReportPlatform where
  /-- `String.prototype.localeCompare`: whether the left text sorts no later than the right. -/
  localeCompare : String → String → Bool
  /-- `String.prototype.toLowerCase`. -/
  toLowerCase : String → String
  /-- The message of the `SyntaxError` that `JSON.parse` throws. -/
  syntaxMessage : String → String

def reviewReportVersion : Nat := 1

def reviewReportStart : String := "BEGIN_PI_BUILD_REVIEW_REPORT"

def reviewReportEnd : String := "END_PI_BUILD_REVIEW_REPORT"

def maxReportBytes : Nat := 256 * 1024

def maxFindings : Nat := 50

/-- `src/src/review/review-report.ts:28-35`. -/
structure ReviewReportFinding where
  severity : ReviewSeverity
  confidence : ReviewConfidence
  title : String
  description : String
  paths : List String
  recommendation : String
deriving DecidableEq, Repr

/-- `src/src/review/review-report.ts:37-40`. -/
structure ParsedReviewReport where
  summary : String
  findings : List ReviewReportFinding
deriving DecidableEq, Repr

/-! ## Fields -/

/-- `src/src/review/review-report.ts:46-54`. -/
def requiredString (value : Option Json) (path : String) (maximum : Nat) : Except String String :=
  match value with
  | some (.str text) =>
    if trim text = "" then .error s!"{path} must be a non-empty string"
    else if utf16Length text > maximum then .error s!"{path} exceeds {maximum} characters"
    else .ok (trim text)
  | _ => .error s!"{path} must be a non-empty string"

/-- `text.replaceAll("\\", "/")`. -/
def withSlashes (text : String) : String :=
  String.ofList (text.toList.map fun c => if c = '\\' then '/' else c)

/-- `/^[a-zA-Z]:\//.test(text)`. -/
def startsWithDrive (text : String) : Bool :=
  match text.toList with
  | letter :: ':' :: '/' :: _ => letter.isAlpha
  | _ => false

/-- The spellings no path of a finding may have. `src/src/review/review-report.ts:58-71`. -/
def isUnsafeFindingPath (candidate : String) : Bool :=
  startsWith candidate "/" || startsWithDrive candidate || includes candidate "//" ||
    candidate = "." || candidate = ".." || startsWith candidate "../" ||
    includes candidate "/../" || endsWith candidate "/.." || includes candidate "/./" ||
    endsWith candidate "/." || candidate = ".git" || startsWith candidate ".git/" ||
    candidate.toList.any fun c => c.toNat = 0

/-- `src/src/review/review-report.ts:56-75`. -/
def safePath (value : Option Json) (path : String) : Except String String := do
  let candidate := withSlashes (← requiredString value path 1024)
  if isUnsafeFindingPath candidate then
    .error s!"{path} must be a safe repository-relative path"
  else return candidate

/-- `src/src/review/review-report.ts:146-151`. -/
def readSeverity (value : Option Json) (path : String) : Except String ReviewSeverity :=
  match value with
  | some (.str "critical") => .ok .critical
  | some (.str "high") => .ok .high
  | some (.str "medium") => .ok .medium
  | some (.str "low") => .ok .low
  | _ => .error s!"{path} is invalid"

/-- `src/src/review/review-report.ts:152-157`. -/
def readConfidence (value : Option Json) (path : String) : Except String ReviewConfidence :=
  match value with
  | some (.str "high") => .ok .high
  | some (.str "medium") => .ok .medium
  | some (.str "low") => .ok .low
  | _ => .error s!"{path} is invalid"

/-! ## Payload -/

/-- `text.indexOf(part)`. -/
def indexOf (text : List Char) (part : String) : Option Nat :=
  text.tails.findIdx? part.toList.isPrefixOf

/-- The text between the only two markers, with nothing around them.
`src/src/review/review-report.ts:81-101`. -/
def markedPayload (text : List Char) : Except String (List Char) :=
  match indexOf text reviewReportStart, indexOf text reviewReportEnd with
  | some start, some stop =>
    if stop ≤ start ∨ (indexOf (text.drop (start + 1)) reviewReportStart).isSome = true ∨
        (indexOf (text.drop (stop + 1)) reviewReportEnd).isSome = true then
      .error "Review output must contain exactly one report marker pair"
    else if trimChars (text.take start) ≠ [] ∨
        trimChars (text.drop (stop + reviewReportEnd.length)) ≠ [] then
      .error "Review output must contain only the marked report payload"
    else .ok (trimChars ((text.take stop).drop (start + reviewReportStart.length)))
  | _, _ => .error "Review output must contain exactly one report marker pair"

/-- `src/src/review/review-report.ts:77-102`. -/
def extractPayload (output : String) : Except String String :=
  if output.utf8ByteSize > maxReportBytes then
    .error s!"Review report exceeds {maxReportBytes} bytes"
  else (markedPayload output.toList).map String.ofList

/-! ## Findings -/

variable (platform : ReportPlatform)

/-- The paths of a finding, each once, in the order of the locale.
`src/src/review/review-report.ts:158-168`. -/
def readPaths (value : Option Json) (path : String) : Except String (List String) :=
  match value with
  | some (.arr (item :: items)) => do
    let paths ← (item :: items).zipIdx.mapM fun entry => safePath (some entry.1) s!"{path}[{entry.2}]"
    return paths.eraseDups.mergeSort platform.localeCompare
  | _ => .error s!"{path} must be a non-empty array"

/-- One finding, without the test for duplicates. `src/src/review/review-report.ts:144-187`. -/
def readFinding (path : String) (candidate : Json) : Except String ReviewReportFinding :=
  match candidate with
  | .obj fields => do
    let severity ← readSeverity (Json.field fields "severity") s!"{path}.severity"
    let confidence ← readConfidence (Json.field fields "confidence") s!"{path}.confidence"
    let paths ← readPaths platform (Json.field fields "paths") s!"{path}.paths"
    let title ← requiredString (Json.field fields "title") s!"{path}.title" 512
    let description ←
      requiredString (Json.field fields "description") s!"{path}.description" 8192
    let recommendation ←
      requiredString (Json.field fields "recommendation") s!"{path}.recommendation" 4096
    return { severity, confidence, title, description, paths, recommendation }
  | _ => .error s!"{path} must be an object"

/-- What two findings may not share. `src/src/review/review-report.ts:188`. -/
def fingerprint (finding : ReviewReportFinding) : String :=
  platform.toLowerCase finding.title ++ "\x00" ++ String.intercalate "\x00" finding.paths

/-- The findings from an index on, behind some that are read.
`src/src/review/review-report.ts:139-196`. -/
def readFindings (fingerprints : List String) (index : Nat) :
    List Json → Except String (List ReviewReportFinding)
  | [] => .ok []
  | candidate :: rest => do
    let path := s!"report.findings[{index}]"
    let finding ← readFinding platform path candidate
    ensure (fingerprint platform finding ∉ fingerprints) s!"{path} duplicates another finding"
    let findings ← readFindings (fingerprints ++ [fingerprint platform finding]) (index + 1) rest
    return finding :: findings

/-- The report a document holds. `src/src/review/review-report.ts:120-198`. -/
def readReport (expectedCategory : ReviewCategory) (expectedBaseCommit : String) (value : Json) :
    Except String ParsedReviewReport :=
  match value with
  | .obj fields => do
    let version := Json.field fields "version"
    let category := Json.field fields "category"
    let baseCommit := Json.field fields "baseCommit"
    ensure (isNumber version reviewReportVersion)
      s!"Unsupported review report version: {textOfProperty version}"
    ensure (isText category expectedCategory.name)
      (s!"Review category mismatch: expected {expectedCategory.name}, received " ++
        textOfProperty category)
    ensure (isText baseCommit expectedBaseCommit)
      (s!"Review base mismatch: expected {expectedBaseCommit}, received " ++
        textOfProperty baseCommit)
    let summary ← requiredString (Json.field fields "summary") "report.summary" 8192
    match Json.field fields "findings" with
    | some (.arr candidates) =>
      ensure (candidates.length ≤ maxFindings)
        s!"report.findings must contain at most {maxFindings} items"
      let findings ← readFindings platform [] 0 candidates
      return { summary, findings }
    | _ => .error s!"report.findings must contain at most {maxFindings} items"
  | _ => .error "Review report must be an object"

/-- `src/src/review/review-report.ts:104-198`. -/
def parseReviewReport (output : Option String) (expectedCategory : ReviewCategory)
    (expectedBaseCommit : String) : Except String ParsedReviewReport := do
  let text ← require output "Reviewer returned no final output"
  let payload ← extractPayload text
  match parseJson payload with
  | none => .error s!"Reviewer returned invalid JSON: {platform.syntaxMessage payload}"
  | some value => readReport platform expectedCategory expectedBaseCommit value

/-- `src/src/review/review-report.ts:213-219`. -/
def reviewFindingId (round : Nat) (category : ReviewCategory) (index : Nat) : String :=
  let digits := toString (index + 1)
  s!"review-{round}-{category.name}-" ++ String.ofList (List.replicate (3 - digits.length) '0') ++ digits

/-- `src/src/review/review-report.ts:200-211`. -/
def materializeReviewFindings (report : ParsedReviewReport) (category : ReviewCategory)
    (round : Nat) : List ReviewFinding :=
  report.findings.zipIdx.map fun (finding, index) =>
    { id := reviewFindingId round category index
      category
      severity := finding.severity
      confidence := finding.confidence
      title := finding.title
      description := finding.description
      paths := finding.paths
      recommendation := finding.recommendation
      status := .deferred
      repairAttemptId := none }

/-! ## Repair scope -/

/-- Whether a finding names a path that is not approved, or one that is withheld.
`src/src/engine/steps/repair.ts:135-141`. -/
def isOutOfScope (allowedPaths withheldPaths : List String) (finding : ReviewFinding) : Bool :=
  finding.paths.any fun path => !pathIsAllowed path allowedPaths || pathIsAllowed path withheldPaths

/-- The failure of a repair step whose findings are not all in scope.
`src/src/engine/steps/repair.ts:131-150`. -/
def repairScopeError (allowedPaths withheldPaths : List String) (required : List ReviewFinding) :
    Option String :=
  let outOfScope := required.filter (isOutOfScope allowedPaths withheldPaths)
  if outOfScope = [] then none
  else some ("Important findings require changes outside approved paths: " ++
    String.intercalate ", " (outOfScope.map (·.id)))

end BuildConductor.Review
