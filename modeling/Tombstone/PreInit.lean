import Tombstone.Payloads

/- What the public API buffers before `tombstone_init` (`preinit.h`, `tombstone_api.cpp`): the
   last value of each piece of state, and the start request, which is a latch. -/
namespace Tombstone

/-- The buffered state of `PreInitStore`. -/
structure PreInitStore where
  consent : Option Bool := none
  /-- User id and Steam id. -/
  user : Option (Bytes × Bytes) := none
  environment : Option Bytes := none
  userMetadata : Option UserMetadataEntries := none
  startSessionRequested : Bool := false
  deriving DecidableEq, Repr

/-- The calls that are buffered as state. -/
inductive PreInitCall where
  | setConsent (granted : Bool)
  | setUser (userId steamId : CString)
  | setEnvironment (environment : CString)
  | setUserMetadata (entries : Option (List (CString × CString)))
  | startSession
  deriving DecidableEq, Repr

namespace PreInitStore

/-- One call before `tombstone_init`. A null or empty environment is refused. -/
def apply (store : PreInitStore) : PreInitCall → PreInitStore
  | .setConsent granted => { store with consent := some granted }
  | .setUser userId steamId => { store with user := some (userId.getD [], steamId.getD []) }
  | .setEnvironment none | .setEnvironment (some []) => store
  | .setEnvironment (some (b :: bs)) => { store with environment := some (b :: bs) }
  | .setUserMetadata entries => { store with userMetadata := some (clampUserMetadata entries) }
  | .startSession => { store with startSessionRequested := true }

/-- The store after a history of calls. -/
def ofCalls (calls : List PreInitCall) : PreInitStore := calls.foldl apply {}

/-- A buffered environment is not empty. -/
theorem ofCalls_environment (calls : List PreInitCall) : (ofCalls calls).environment ≠ some [] := by
  have hfold : ∀ (calls : List PreInitCall) (store : PreInitStore), store.environment ≠ some [] →
      (calls.foldl apply store).environment ≠ some [] := by
    intro calls
    induction calls with
    | nil => exact fun _ h => h
    | cons call calls ih =>
      intro store h
      refine ih _ ?_
      unfold apply
      split <;> first | exact h | simp
  exact hfold calls {} (by simp)

end PreInitStore

end Tombstone
