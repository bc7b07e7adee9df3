import VersionedQueue.Table.History

/-!
# The versions of a cell

A history is known by the value it keeps for each version.  A snapshot reads the value of the newest
version that it sees.  Where a snapshot sees every version of a cell, it reads the latest write.
-/

set_option autoImplicit false
set_option relaxedAutoImplicit false

namespace VersionedQueue

/-- One snapshot sees all that another one sees. -/
def Snapshot.Extends (later earlier : Snapshot) : Prop := ∀ v, earlier.sees v → later.sees v

theorem Snapshot.extends_upTo {m n : Version} (le : m ≤ n) : (upTo n).Extends (upTo m) := by
  intro v seen
  simp only [sees, upTo, Bool.and_eq_true] at seen ⊢
  exact ⟨decide_eq_true (UInt64.le_trans (of_decide_eq_true seen.1) le), seen.2⟩

theorem Snapshot.le_maximum_of_sees {s : Snapshot} {v : Version} (h : s.sees v) : v ≤ s.maximum := by
  simp only [Snapshot.sees, Bool.and_eq_true, decide_eq_true_eq] at h
  exact h.1

namespace History

/-- What was written at a version, if anything was. -/
def at? (h : History) (v : Version) : Option (Option Bytes) :=
  (h.revisions.find? fun r => r.version == v).map (·.value)

/-- Something was written at a version. -/
def Has (h : History) (v : Version) : Prop := h.at? v ≠ none

/-- The value of the newest version, unless that is a deletion. -/
def latest (h : History) : Option Bytes := h.revisions.head?.bind (·.value)

private theorem find?_insert (r : Revision) (v : Version) :
    ∀ l : List Revision, ((r.insert l).find? fun q => q.version == v) =
      if r.version = v then some r else l.find? fun q => q.version == v
  | [] => by
      by_cases same : r.version = v
      · simp [Revision.insert, same]
      · simp [Revision.insert, same]
  | q :: rest => by
      unfold Revision.insert
      split
      · by_cases same : r.version = v
        · simp [same]
        · simp only [List.find?_cons_of_neg (p := fun q : Revision => q.version == v)
            (by simpa using same), same, if_false]
      · split
        · rename_i replaced
          by_cases same : r.version = v
          · simp [same]
          · simp [same, replaced]
        · rename_i distinct
          by_cases here : q.version = v
          · have other : r.version ≠ v := fun same => distinct (here.trans same.symm)
            simp [here, other]
          · have apart : (q.version == v) = false := by simpa using here
            rw [List.find?_cons, List.find?_cons, find?_insert r v rest, apart]

@[simp] theorem at?_empty (v : Version) : empty.at? v = none := rfl

/-- A write decides the value of its own version, and of no other. -/
theorem at?_record (h : History) (v : Version) (x : Option Bytes) (w : Version) :
    (h.record v x).at? w = if v = w then some x else h.at? w := by
  unfold at? record
  rw [find?_insert]
  split <;> rfl

theorem has_record (h : History) (v : Version) (x : Option Bytes) (w : Version) :
    (h.record v x).Has w ↔ v = w ∨ h.Has w := by
  unfold Has
  rw [at?_record]
  by_cases same : v = w
  · simp [same]
  · simp [same]

private theorem at?_of_mem {h : History} {r : Revision} (mem : r ∈ h.revisions) :
    h.at? r.version = some r.value := by
  have unique : ∀ l : List Revision, l.Pairwise (fun a b => b.version < a.version) → r ∈ l →
      (l.find? fun q => q.version == r.version) = some r := by
    intro l
    induction l with
    | nil => intro _ inside; cases inside
    | cons q rest ih =>
        intro ordered inside
        obtain ⟨head, tail⟩ := List.pairwise_cons.1 ordered
        rcases List.mem_cons.1 inside with rfl | inside
        · simp
        · have other : q.version ≠ r.version := fun same =>
            UInt64.lt_irrefl _ (same ▸ head r inside)
          simp [other, ih tail inside]
  simp [at?, unique _ h.descending mem]

private theorem mem_of_at? {h : History} {v : Version} {x : Option Bytes} (found : h.at? v = some x) :
    (⟨v, x⟩ : Revision) ∈ h.revisions := by
  simp only [at?, Option.map_eq_some_iff] at found
  obtain ⟨r, here, rfl⟩ := found
  have same : r.version = v := by simpa using List.find?_some here
  exact same ▸ List.mem_of_find?_eq_some here

theorem mem_revisions {h : History} {r : Revision} :
    r ∈ h.revisions ↔ h.at? r.version = some r.value := ⟨at?_of_mem, mem_of_at?⟩

private theorem newest_spec {s : Snapshot} {r : Revision} :
    ∀ {l : List Revision}, l.Pairwise (fun a b => b.version < a.version) →
      (l.find? fun q => s.sees q.version) = some r →
      s.sees r.version ∧ ∀ q ∈ l, s.sees q.version → q.version ≤ r.version := by
  intro l
  induction l with
  | nil => intro _ found; cases found
  | cons q rest ih =>
      intro ordered found
      obtain ⟨head, tail⟩ := List.pairwise_cons.1 ordered
      by_cases seen : s.sees q.version = true
      · have same : q = r := by simpa [seen] using found
        subst same
        refine ⟨seen, fun p inside _ => ?_⟩
        rcases List.mem_cons.1 inside with rfl | inside
        · exact UInt64.le_refl _
        · exact UInt64.le_of_lt (head p inside)
      · have later : (rest.find? fun q => s.sees q.version) = some r := by simpa [seen] using found
        obtain ⟨rSeen, newest⟩ := ih tail later
        refine ⟨rSeen, fun p inside pSeen => ?_⟩
        rcases List.mem_cons.1 inside with rfl | inside
        · exact absurd pSeen seen
        · exact newest p inside pSeen

theorem read_cases (h : History) (s : Snapshot) :
    (h.read s = none ∧ ∀ v, s.sees v → ¬ h.Has v) ∨
      ∃ v x, s.sees v ∧ h.at? v = some x ∧ (∀ w, s.sees w → h.Has w → w ≤ v) ∧ h.read s = x := by
  unfold read newest
  cases found : h.revisions.find? fun r => s.sees r.version with
  | none =>
      refine .inl ⟨rfl, fun v seen has => ?_⟩
      obtain ⟨x, here⟩ := Option.ne_none_iff_exists'.1 has
      have hidden := List.find?_eq_none.1 found _ (mem_of_at? here)
      exact hidden seen
  | some r =>
      obtain ⟨seen, newest⟩ := newest_spec h.descending found
      refine .inr ⟨r.version, r.value, seen, at?_of_mem (List.mem_of_find?_eq_some found),
        fun w wSeen has => ?_, rfl⟩
      obtain ⟨x, here⟩ := Option.ne_none_iff_exists'.1 has
      exact newest _ (mem_of_at? here) wSeen

theorem read_of_newest {h : History} {s : Snapshot} {v : Version} {x : Option Bytes}
    (seen : s.sees v) (here : h.at? v = some x) (newest : ∀ w, s.sees w → h.Has w → w ≤ v) :
    h.read s = x := by
  have has : h.Has v := by simp [Has, here]
  rcases read_cases h s with ⟨_, hidden⟩ | ⟨w, y, wSeen, there, top, read⟩
  · exact absurd has (hidden v seen)
  · have wHas : h.Has w := by simp [Has, there]
    have same : w = v := UInt64.le_antisymm (newest w wSeen wHas) (top v seen has)
    subst same
    rw [read]
    exact Option.some.inj (there.symm.trans here)

theorem read_eq_latest {h : History} {s : Snapshot} (all : ∀ v, h.Has v → s.sees v) :
    h.read s = h.latest := by
  unfold read newest latest
  cases found : h.revisions with
  | nil => rfl
  | cons r rest =>
      have inside : r ∈ h.revisions := found ▸ List.mem_cons_self
      have seen : s.sees r.version = true := all r.version (by simp [Has, at?_of_mem inside])
      simp [seen]

theorem exists_at?_of_latest {h : History} {x : Bytes} (latest : h.latest = some x) :
    ∃ v, h.at? v = some (some x) := by
  unfold History.latest at latest
  cases found : h.revisions with
  | nil => simp [found] at latest
  | cons r rest =>
      have inside : r ∈ h.revisions := found ▸ List.mem_cons_self
      have value : r.value = some x := by simpa [found] using latest
      exact ⟨r.version, by rw [at?_of_mem inside, value]⟩

theorem exists_has_of_latest {h : History} (some : h.latest ≠ none) : ∃ v, h.Has v := by
  obtain ⟨x, latest⟩ := Option.ne_none_iff_exists'.1 some
  obtain ⟨v, found⟩ := exists_at?_of_latest latest
  exact ⟨v, by simp [Has, found]⟩

theorem latest_record {h : History} {v : Version} (newest : ∀ w, h.Has w → w ≤ v)
    (x : Option Bytes) : (h.record v x).latest = x := by
  change (Revision.insert ⟨v, x⟩ h.revisions).head?.bind (·.value) = x
  cases found : h.revisions with
  | nil => rfl
  | cons r rest =>
      have inside : r ∈ h.revisions := found ▸ List.mem_cons_self
      have below : r.version ≤ v := newest r.version (by simp [Has, at?_of_mem inside])
      simp only [Revision.insert]
      split
      · rfl
      · rename_i notNewer
        have same : r.version = v := UInt64.le_antisymm below (UInt64.not_lt.1 notNewer)
        simp [same]

end History

end VersionedQueue
