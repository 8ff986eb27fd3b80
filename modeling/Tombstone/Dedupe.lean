import Tombstone.Bytes
import Mathlib.Data.List.Nodup

/- The dedupe of crash reports (`dedupe.h`, `dedupe.cpp`): within a window, a signature is
   reported once, and its repeats are counted. -/
namespace Tombstone

structure DedupeEntry where
  /-- On the steady clock. -/
  lastSent : Int
  suppressed : Nat := 0
  deriving DecidableEq, Repr

namespace DedupeWindow

def maxTrackedSignatures : Nat := 64

end DedupeWindow

/-- The signatures of late, each with the time it was last reported at. -/
structure DedupeWindow where
  window : Int := 60000000000
  recent : List (Bytes × DedupeEntry) := []
  keys : (recent.map Prod.fst).Nodup := by simp
  bounded : recent.length ≤ DedupeWindow.maxTrackedSignatures := by simp
  deriving DecidableEq

structure DedupeDecision where
  allowed : Bool
  /-- The repeats since the last report of the signature, where it is not allowed. -/
  suppressedCount : Nat
  deriving DecidableEq, Repr

namespace DedupeWindow

/-- A tracked signature gets another entry. -/
def put (w : DedupeWindow) (signature : Bytes) (entry : DedupeEntry) : DedupeWindow :=
  { w with
    recent := w.recent.map fun e => if e.1 = signature then (signature, entry) else e
    keys := by
      have hkeys : (w.recent.map fun e => if e.1 = signature then (signature, entry) else e).map
          Prod.fst = w.recent.map Prod.fst := by
        rw [List.map_map]
        apply List.map_congr_left
        intro e _
        rw [Function.comp_apply]
        split
        · exact Eq.symm ‹_›
        · rfl
      rw [hkeys]
      exact w.keys
    bounded := by
      rw [List.length_map]
      exact w.bounded }

/-- A new signature; a full map is emptied first. -/
def track (w : DedupeWindow) (signature : Bytes) (entry : DedupeEntry)
    (h : signature ∉ w.recent.map Prod.fst) : DedupeWindow :=
  if hfull : maxTrackedSignatures ≤ w.recent.length then
    { w with
      recent := [(signature, entry)]
      keys := by simp
      bounded := by simp [maxTrackedSignatures] }
  else
    { w with
      recent := w.recent ++ [(signature, entry)]
      keys := by
        have hkeys := w.keys.concat h
        rw [List.concat_eq_append] at hkeys
        rw [List.map_append, List.map_singleton]
        exact hkeys
      bounded := by
        rw [List.length_append, List.length_singleton]
        omega }

/-- `DedupeWindow::check`. -/
def check (w : DedupeWindow) (signature : Bytes) (now : Int) : DedupeDecision × DedupeWindow :=
  match hfound : w.recent.lookup signature with
  | some entry =>
    if now - entry.lastSent < w.window then
      (⟨false, entry.suppressed + 1⟩,
        w.put signature { entry with suppressed := entry.suppressed + 1 })
    else (⟨true, 0⟩, w.put signature ⟨now, 0⟩)
  | none =>
    (⟨true, 0⟩, w.track signature ⟨now, 0⟩ (by
      intro hmem
      obtain ⟨e, he, rfl⟩ := List.mem_map.mp hmem
      have hmiss := List.lookup_eq_none_iff.mp hfound e he
      simp at hmiss))

end DedupeWindow

end Tombstone
