import Tombstone.FieldSearch
import Tombstone.Runtime

/- The log flag of a report that was written to disk.

   `drain_sidecars` decides by `find_bool_field(body, "log")` whether a restored report asks
   for a log slot, on bodies whose strings come from the game and its players. The members in
   front of the flag are strings under other names, so a search gets past them whatever they
   say; what comes behind the flag is only appended. -/
namespace Tombstone.FieldSearch
open JsonScan

variable {w : JsonWriter}

theorem wordKey_log : WordKey (lit "log") := by decide

theorem contextNames_log : ∀ name ∈ contextNames, Other (lit "log") name := by decide

theorem trailNames_log : ∀ name ∈ trailNames, Other (lit "log") name := by decide

theorem Passes.logFlag (h : Passes (lit "log") [] w) (log : Bool) :
    Holds (lit "log") (if log then lit "true" else lit "false") (w.boolField (lit "log") log) :=
  h.write (by decide) _

/-- **The log flag of a crash survives persistence**, whatever bytes its strings and its
breadcrumbs have. -/
theorem crash_logFlag (printed : Double → Bytes) (p : CrashPayload) :
    findBoolField (buildCrashJson printed p) (lit "log") = some p.log := by
  have hkey := wordKey_log
  have h := (Passes.root (lit "log")).commonContext hkey contextNames_log p.occurredAtIso
    p.buildVersion p.os p.arch
  have h := h.clampedField hkey (lit "signature") p.signature limits.signature
  have h := h.clampedField hkey (lit "stackHint") p.stackHint limits.stackHint
  have h := h.optionalField hkey (lit "stackTrace") p.stackTrace limits.stackTrace
  have h := h.breadcrumbsField hkey trailNames_log p.breadcrumbs
  have h := h.optionalField hkey (lit "userId") p.userId limits.userId
  have h := h.optionalField hkey (lit "priorUserId") p.priorUserId limits.userId
  have h := h.optionalField hkey (lit "steamId") p.steamId limits.steamId
  have h := h.logFlag p.log
  -- from here on the body only grows
  have h := h.extended ((Extends.refl _).correlationFields p.role p.serverId p.matchId p.sessionId)
  have h := h.extended ((Extends.refl _).optionalField (lit "environment") p.environment
    limits.environment)
  have h := h.extended ((Extends.refl _).deviceObject printed p.device)
  have h := h.extended ((Extends.refl _).optionalField (lit "crashType") p.crashType
    limits.signature)
  have h := h.extended ((Extends.refl _).optionalIntField (lit "osSignal") p.osSignal)
  exact (h.extended ((Extends.refl _).emit _)).bool

/-- **And that of a bug report.** -/
theorem bugReport_logFlag (printed : Double → Bytes) (p : BugReportPayload) :
    findBoolField (buildBugReportJson printed p) (lit "log") = some p.log := by
  have hkey := wordKey_log
  have h := (Passes.root (lit "log")).commonContext hkey contextNames_log p.occurredAtIso
    p.buildVersion p.os p.arch
  have h := h.optionalField hkey (lit "category") p.category limits.bugCategory
  have h := h.clampedField hkey (lit "message") p.message limits.bugMessage
  have h := h.optionalField hkey (lit "userId") p.userId limits.userId
  have h := h.optionalField hkey (lit "priorUserId") p.priorUserId limits.userId
  have h := h.optionalField hkey (lit "steamId") p.steamId limits.steamId
  have h := h.breadcrumbsField hkey trailNames_log p.breadcrumbs
  have h := h.logFlag p.log
  -- from here on the body only grows
  have h := h.extended ((Extends.refl _).correlationFields p.role p.serverId p.matchId p.sessionId)
  have h := h.extended ((Extends.refl _).optionalField (lit "environment") p.environment
    limits.environment)
  have h := h.extended ((Extends.refl _).deviceObject printed p.device)
  exact (h.extended ((Extends.refl _).emit _)).bool

/-- So a restored crash asks for a log slot just when it was reported to, and so does a restored
bug report. -/
theorem restoredJob_requestLog (printed : Double → Bytes) (s : Runtime.State) (r : SidecarRecord) :
    (∀ p, r.path.kind = .crash → r.body = buildCrashJson printed p →
        (Runtime.restoredJob s r).requestLog = p.log) ∧
      ∀ p, r.path.kind = .bugReport → r.body = buildBugReportJson printed p →
        (Runtime.restoredJob s r).requestLog = p.log := by
  constructor
  · intro p hkind hbody
    show (r.path.kind != .event && (findBoolField r.body (lit "log")).getD false) = p.log
    rw [hkind, hbody, crash_logFlag]
    rfl
  · intro p hkind hbody
    show (r.path.kind != .event && (findBoolField r.body (lit "log")).getD false) = p.log
    rw [hkind, hbody, bugReport_logFlag]
    rfl

/-- **The log flag survives persistence**: in every crash and every bug report. -/
theorem logFlag_survives (printed : Double → Bytes) :
    (∀ p : CrashPayload, findBoolField (buildCrashJson printed p) (lit "log") = some p.log) ∧
      ∀ p : BugReportPayload,
        findBoolField (buildBugReportJson printed p) (lit "log") = some p.log :=
  ⟨crash_logFlag printed, bugReport_logFlag printed⟩

end Tombstone.FieldSearch
