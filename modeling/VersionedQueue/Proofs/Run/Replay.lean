import VersionedQueue.Proofs.Run.Orderly

/-!
# Runs of given calls

Calls that are given make one run, each on the storage that the one before it left.
-/

set_option autoImplicit false
set_option relaxedAutoImplicit false

namespace VersionedQueue

/-- The run of the given calls, newest first, on an empty table. -/
def replay : List Call → List Event
  | [] => []
  | call :: earlier => ⟨call, storageAfter (replay earlier)⟩ :: replay earlier

section Replay

variable {allowed : List Event → Call → Prop} {calls : List Call} {call : Call}

theorem Run.replay_cons (run : Run allowed (replay calls)) (fits : allowed (replay calls) call) :
    Run allowed (replay (call :: calls)) := .next run fits

theorem map_call_replay (calls : List Call) : (replay calls).map (·.call) = calls := by
  induction calls with
  | nil => rfl
  | cons call calls ih => rw [replay, List.map_cons, ih]

theorem call_mem_of_mem_replay {e : Event} (mem : e ∈ replay calls) : e.call ∈ calls := by
  rw [← map_call_replay calls]
  exact List.mem_map.2 ⟨e, mem, rfl⟩

theorem replay_drop_suffix (n : Nat) (calls : List Call) : replay (calls.drop n) <:+ replay calls := by
  induction calls generalizing n with
  | nil => simp
  | cons call calls ih =>
      cases n with
      | zero => exact List.suffix_refl _
      | succ n => exact (ih n).trans (List.suffix_cons _ _)

/-- A snapshot that extends those of all calls of consumers, and sees their writes, follows them. -/
theorem follows_replay_of_extends {seat : Seat} {s : Snapshot}
    (later : ∀ call ∈ calls, ∀ earlier, call.request.snapshot? = some earlier →
      s.Extends earlier ∧ s.sees earlier.writeVersion = true) : Follows (replay calls) seat s := by
  intro e mem _ earlier reads
  obtain ⟨extended, sees⟩ := later e.call (call_mem_of_mem_replay mem) earlier reads
  exact ⟨extended, fun _ => sees⟩

theorem follows_replay {seat : Seat} {s : Snapshot} (sees : s.sees s.writeVersion = true)
    (same : ∀ call ∈ calls, ∀ earlier, call.request.snapshot? = some earlier → earlier = s) :
    Follows (replay calls) seat s := by
  refine follows_replay_of_extends fun call mem earlier reads => ?_
  obtain rfl := same call mem earlier reads
  exact ⟨fun _ seen => seen, sees⟩

theorem not_invalidated_replay (kept : ∀ call ∈ calls, ∀ p v, call.request ≠ .invalidate p v)
    {p : Pointer} (v : Version) : ¬ Invalidated (replay calls) p v := by
  rintro ⟨e, mem, asked, _⟩
  exact kept e.call (call_mem_of_mem_replay mem) p v asked

end Replay

end VersionedQueue
